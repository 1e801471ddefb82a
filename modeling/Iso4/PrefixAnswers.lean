/-
Every accepted run is answered once (`Engine::prefix_run` of `crates/core/src/engine.rs`).

* `Engine.step_sound` — what every step keeps: hooks are called once, for accepted runs, and the
  registry holds the attachments of the others;
* `Engine.answered_once` — every accepted run is answered once just if no thread drops a job;
* `Engine.job_dropped` — a job in the hands of a thread that is tainted goes unanswered.
-/
import Iso4.PrefixRuns

namespace Iso4

open Program Execution

section Engine

variable {F : Type} [F64 F]

namespace Engine

/-! ### Every step -/

/-- A session has nothing live, and everything may come. -/
abbrev Anything : RunEvent → Prop := fun _ => True

structure Sound (e : Engine F) : Prop where
  attached : e.Attached
  tokens : (e.accepted.map fun a => a.job.token).Nodup
  fresh : ∀ a ∈ e.accepted, a.job.token < e.nextToken
  linked : ∀ a ∈ e.accepted, a.job.link = true
  cold : ∀ a ∈ e.accepted, ∀ token, a.seat = .cold token → token = a.job.token
  conserved : ∀ seat, (e.threads seat).Conserved
  holds : ∀ seat, (e.threads seat).Holds (e.MayCome seat)
  emptied : ∀ seat, (e.threads seat).Emptied
  session : e.sessions.Holds Anything
  /-- A session finishes a job only once the thread is gone and did not receive it. -/
  dead : ∀ token ∈ releasedTokens e.sessions.log, ∃ a ∈ e.accepted, a.job.token = token ∧
    (e.threads a.seat).isGone = true ∧ token ∉ (e.threads a.seat).seen
  deadOnce : (releasedTokens e.sessions.log).Nodup
  hooked : ∀ token ∈ e.hooks, ∃ a ∈ e.accepted, a.job.token = token
  count : ∀ a ∈ e.accepted, e.hooks.count a.job.token =
    (releasedTokens (e.threads a.seat).log).count a.job.token +
      (releasedTokens e.sessions.log).count a.job.token

section Steps

variable {e e' : Engine F}

omit [F64 F] in
/-- More may come once more runs are accepted and more handles dropped. -/
theorem mayCome_mono (haccepted : e.accepted ⊆ e'.accepted)
    (hdropped : ∀ seat, e.HandleDropped seat → e'.HandleDropped seat) (seat : Seat) (m : RunEvent)
    (h : e.MayCome seat m) : e'.MayCome seat m := by
  cases m with
  | job j => exact h.imp fun a ha => ⟨haccepted ha.1, ha.2⟩
  | host m => trivial
  | retire => exact hdropped seat h

omit [F64 F] in
/-- A job that may come is of a run, and has a link. -/
theorem Sound.link (h : e.Sound) (seat : Seat) (j : CallJob) (hj : e.MayCome seat (.job j)) :
    j.link = true := by
  obtain ⟨a, ha, -, rfl⟩ := hj
  exact h.linked a ha

omit [F64 F] in
/-- A token seen by a thread is of a run that was given its instance. -/
theorem Sound.seen (h : e.Sound) {seat : Seat} {token : Nat}
    (ht : token ∈ (e.threads seat).seen) :
    ∃ a ∈ e.accepted, a.seat = seat ∧ a.job.token = token := by
  obtain ⟨j, ⟨a, ha, hseat, rfl⟩, rfl⟩ := (h.holds seat).core.seen token ht
  exact ⟨a, ha, hseat, rfl⟩

omit [F64 F] in
/-- Once the handle was dropped, the hook of every run of the instance ran. -/
theorem Sound.hooked_of_dropped (h : e.Sound) {a : AcceptedRun} (ha : a ∈ e.accepted)
    (hd : e.HandleDropped a.seat) : a.job.token ∈ e.hooks := by
  by_contra hnot
  cases hseat : a.seat with
  | pooled id =>
    -- the run is still attached, so the registry keeps the instance on record
    rw [hseat] at hd
    refine not_mem_out_of_dropped h.attached.balanced hd (p := a.prefixId) ?_
    refine h.attached.out.mem_iff.mpr (List.mem_filterMap.mpr ⟨a, ha, ?_⟩)
    unfold attachment
    rw [if_neg hnot, hseat]
  | cold token =>
    rw [hseat] at hd
    exact hnot (h.cold a ha token hseat ▸ hd)

omit [F64 F] in
/-- The threads and sessions are as before, the hooks too. -/
theorem Sound.world (h : e.Sound) (hattached : e'.Attached) (haccepted : e'.accepted = e.accepted)
    (hthreads : e'.threads = e.threads) (hsessions : e'.sessions = e.sessions)
    (hhooks : e'.hooks = e.hooks) (hnext : e.nextToken ≤ e'.nextToken)
    (hdropped : ∀ seat, e.HandleDropped seat → e'.HandleDropped seat) : e'.Sound where
  attached := hattached
  tokens := haccepted ▸ h.tokens
  fresh := by
    rw [haccepted]
    exact fun a ha => (h.fresh a ha).trans_le hnext
  linked := haccepted ▸ h.linked
  cold := haccepted ▸ h.cold
  conserved := hthreads ▸ h.conserved
  holds := by
    intro seat
    rw [hthreads]
    exact (h.holds seat).mono (mayCome_mono (haccepted ▸ List.Subset.refl _) hdropped seat)
  emptied := hthreads ▸ h.emptied
  session := hsessions ▸ h.session
  dead := by
    rw [hsessions, haccepted, hthreads]
    exact h.dead
  deadOnce := hsessions ▸ h.deadOnce
  hooked := by
    rw [hhooks, haccepted]
    exact h.hooked
  count := by
    rw [haccepted, hhooks, hthreads, hsessions]
    exact h.count

/-- A call into the registry that neither attaches nor releases a run. -/
theorem Sound.call (h : e.Sound) (cfg : WarmConfig) (op : RegistryOp F) {oneoffRuns : Nat}
    (hout : (e.world.step cfg op).out = e.world.out)
    (honeoffs : (e.world.step cfg op).oneoffs + e.oneoffRuns = e.world.oneoffs + oneoffRuns) :
    Sound { e with world := e.world.step cfg op, oneoffRuns := oneoffRuns } := by
  refine h.world ⟨step_balanced cfg _ _ h.attached.balanced, ?_, ?_⟩ rfl rfl rfl rfl
    (Nat.le_refl _) ?_
  · exact hout ▸ h.attached.out
  · have hbefore := h.attached.oneoffs
    change (e.world.step cfg op).oneoffs = e.accepted.countP (isReserved e.hooks) + oneoffRuns
    omega
  · intro seat hd
    cases seat with
    | pooled id => exact World.step_dropped cfg h.attached.balanced _ hd
    | cold token => exact hd

theorem new_sound : (Engine.new F).Sound where
  attached := ⟨new_balanced, List.Perm.refl _, rfl⟩
  tokens := List.nodup_nil
  fresh := fun _ ha => absurd ha List.not_mem_nil
  linked := fun _ ha => absurd ha List.not_mem_nil
  cold := fun _ ha => absurd ha List.not_mem_nil
  conserved := fun _ => Inst.new_conserved 0
  holds := fun _ => ⟨⟨fun _ he => absurd he List.not_mem_nil,
    fun _ hl => absurd hl List.not_mem_nil,
    fun _ ht => absurd ht List.not_mem_nil, answered_nil⟩, fun _ hj => absurd hj List.not_mem_nil,
    fun hr => absurd hr Bool.false_ne_true⟩
  emptied := fun _ => .idle rfl Pc.noConfusion
  session := ⟨fun _ he => absurd he List.not_mem_nil, fun _ hl => absurd hl List.not_mem_nil,
    fun _ ht => absurd ht List.not_mem_nil, answered_nil⟩
  dead := fun _ ht => absurd ht List.not_mem_nil
  deadOnce := List.nodup_nil
  hooked := fun _ ht => absurd ht List.not_mem_nil
  count := fun _ ha => absurd ha List.not_mem_nil

omit [F64 F] in
/-- A hook that ran did so in the thread of the run, or in its session. -/
theorem Sound.released_of_hooked (h : e.Sound) {a : AcceptedRun} (ha : a ∈ e.accepted)
    (hhooked : a.job.token ∈ e.hooks) : a.job.token ∈ releasedTokens (e.threads a.seat).log ∨
      a.job.token ∈ releasedTokens e.sessions.log := by
  have hpos := List.count_pos_iff.mpr hhooked
  rw [h.count a ha] at hpos
  by_cases hthread : a.job.token ∈ releasedTokens (e.threads a.seat).log
  · exact Or.inl hthread
  · rw [List.count_eq_zero_of_not_mem hthread, Nat.zero_add] at hpos
    exact Or.inr (List.count_pos_iff.mp hpos)

omit [F64 F] in
/-- A run is known by its token. -/
theorem Sound.unique (h : e.Sound) {a b : AcceptedRun} (ha : a ∈ e.accepted) (hb : b ∈ e.accepted)
    (htoken : a.job.token = b.job.token) : a = b := List.inj_on_of_nodup_map h.tokens ha hb htoken

omit [F64 F] in
/-- A job that its session finished was not received. -/
theorem Sound.dead_of_session (h : e.Sound) {a : AcceptedRun} (ha : a ∈ e.accepted)
    (hs : a.job.token ∈ releasedTokens e.sessions.log) :
    (e.threads a.seat).isGone = true ∧ a.job.token ∉ (e.threads a.seat).seen := by
  obtain ⟨b, hb, htoken, hgone, hseen⟩ := h.dead _ hs
  obtain rfl := h.unique hb ha htoken
  exact ⟨hgone, hseen⟩

omit [F64 F] in
/-- The hook of a run that comes next has not run. -/
theorem Sound.fresh_hooks (h : e.Sound) : e.nextToken ∉ e.hooks := by
  intro hmem
  obtain ⟨a, ha, htoken⟩ := h.hooked _ hmem
  have hlt := h.fresh a ha
  omega

omit [F64 F] in
/-- One more run is accepted. -/
theorem Sound.accepts (h : e.Sound) {w : World F} {a : AcceptedRun}
    (htoken : a.job.token = e.nextToken) (hlink : a.job.link = true) (hcold : ∀ token, a.seat = .cold token → token = a.job.token)
    (hdropped : ∀ id, e.world.registry.Dropped id → w.registry.Dropped id)
    (hattached : Attached { e with
      world := w
      nextToken := e.nextToken + 1
      accepted := a :: e.accepted }) :
    Sound { e with world := w, nextToken := e.nextToken + 1, accepted := a :: e.accepted } := by
  have hother : ∀ b ∈ e.accepted, b.job.token ≠ a.job.token := by
    intro b hb heq
    have hlt := h.fresh b hb
    omega
  -- no thread has met the new token
  have hunseen : a.job.token ∉ (e.threads a.seat).seen := by
    intro hseen
    obtain ⟨b, hb, -, heq⟩ := h.seen hseen
    exact hother b hb heq
  constructor
  · exact hattached
  · refine List.nodup_cons.mpr ⟨?_, h.tokens⟩
    intro hmem
    obtain ⟨b, hb, heq⟩ := List.mem_map.mp hmem
    exact hother b hb heq
  · intro b hb
    change b.job.token < e.nextToken + 1
    obtain rfl | hb := List.mem_cons.mp hb
    · omega
    · exact (h.fresh b hb).trans (Nat.lt_succ_self _)
  · intro b hb
    obtain rfl | hb := List.mem_cons.mp hb
    · exact hlink
    · exact h.linked b hb
  · intro b hb
    obtain rfl | hb := List.mem_cons.mp hb
    · exact hcold
    · exact h.cold b hb
  · exact h.conserved
  · intro seat
    refine (h.holds seat).mono (mayCome_mono (List.subset_cons_self _ _) ?_ seat)
    intro seat hd
    cases seat with
    | pooled id => exact hdropped id hd
    | cold token => exact hd
  · exact h.emptied
  · exact h.session
  · intro token ht
    obtain ⟨b, hb, hrest⟩ := h.dead token ht
    exact ⟨b, List.mem_cons_of_mem _ hb, hrest⟩
  · exact h.deadOnce
  · intro token ht
    obtain ⟨b, hb, hrest⟩ := h.hooked token ht
    exact ⟨b, List.mem_cons_of_mem _ hb, hrest⟩
  · intro b hb
    obtain rfl | hb := List.mem_cons.mp hb
    · have hthread : b.job.token ∉ releasedTokens (e.threads b.seat).log :=
        fun hmem => hunseen ((h.conserved b.seat).seen_of_released hmem)
      have hsession : b.job.token ∉ releasedTokens e.sessions.log := by
        intro hmem
        obtain ⟨b', hb', heq, -⟩ := h.dead _ hmem
        exact hother b' hb' heq
      have hhooks : b.job.token ∉ e.hooks := htoken ▸ h.fresh_hooks
      change e.hooks.count b.job.token = _
      rw [List.count_eq_zero_of_not_mem hhooks]
      change 0 = (releasedTokens (e.threads b.seat).log).count _ + _
      rw [List.count_eq_zero_of_not_mem hthread]
      change 0 = 0 + (releasedTokens e.sessions.log).count _
      rw [List.count_eq_zero_of_not_mem hsession]
    · exact h.count b hb

/-- `prefix_run` up to the answer of the registry. -/
theorem acquire_sound (h : e.Sound) (cfg : WarmConfig) (p : String) (caps : HeapCaps)
    (r : Reading F) (spawn : Except String Unit) (util : Nat → Nat) (runId : Nat)
    (limits : Limits) :
    Sound (e.step cfg (.acquire p caps r spawn util runId limits)) := by
  have hbalanced := step_balanced cfg e.world (.acquire p caps r spawn util) h.attached.balanced
  have hdropped : ∀ id, e.world.registry.Dropped id →
      (e.world.step cfg (.acquire p caps r spawn util)).registry.Dropped id :=
    fun id hd => World.step_dropped cfg h.attached.balanced _ hd
  have hhandles : ∀ {e' : Engine F}, e'.world = e.world.step cfg (.acquire p caps r spawn util) →
      e'.hooks = e.hooks → ∀ seat, e.HandleDropped seat → e'.HandleDropped seat := by
    intro e' hworld hhooks seat hd
    cases seat with
    | pooled id =>
      change e'.world.registry.Dropped id
      rw [hworld]
      exact hdropped id hd
    | cold token =>
      change token ∈ e'.hooks
      rw [hhooks]
      exact hd
  -- an answer that attaches nobody changes no book
  have hrefused : ∀ {message : Acquired}, (acquire cfg e.world.registry p caps r spawn util).2 =
      message → message.book p e.world.out e.world.oneoffs = (e.world.out, e.world.oneoffs) →
      Sound { e with
        world := e.world.step cfg (.acquire p caps r spawn util)
        nextToken := e.nextToken + 1 } := by
    intro message hanswer hbook
    have hsame : (e.world.step cfg (.acquire p caps r spawn util)).out = e.world.out ∧
        (e.world.step cfg (.acquire p caps r spawn util)).oneoffs = e.world.oneoffs := by
      simp only [World.step, hanswer, hbook, and_self]
    exact h.world ⟨hbalanced, hsame.1 ▸ h.attached.out, hsame.2.trans h.attached.oneoffs⟩ rfl rfl
      rfl rfl (Nat.le_succ _) (hhandles rfl rfl)
  have hnot := h.fresh_hooks
  simp only [step, accept]
  cases hanswer : (acquire cfg e.world.registry p caps r spawn util).2 with
  | attached id =>
    refine h.accepts rfl rfl (fun token heq => absurd heq Seat.noConfusion) hdropped
      ⟨hbalanced, ?_, ?_⟩
    · have hattachment : attachment e.hooks ⟨prefixJob e.nextToken runId limits, p, .pooled id⟩ =
          some (p, id) := attachment_pooled hnot rfl
      have hout : (e.world.step cfg (.acquire p caps r spawn util)).out =
          (p, id) :: e.world.out := by
        simp only [World.step, hanswer, Acquired.book]
      change (e.world.step cfg _).out.Perm _
      rw [hout, List.filterMap_cons_some hattachment]
      exact h.attached.out.cons _
    · have hreserved : isReserved e.hooks ⟨prefixJob e.nextToken runId limits, p, .pooled id⟩ =
          false := isReserved_pooled rfl
      have honeoffs : (e.world.step cfg (.acquire p caps r spawn util)).oneoffs =
          e.world.oneoffs := by
        simp only [World.step, hanswer, Acquired.book]
      change (e.world.step cfg _).oneoffs = _
      rw [honeoffs, List.countP_cons_of_neg (by rw [hreserved]; exact Bool.false_ne_true)]
      exact h.attached.oneoffs
  | cold =>
    refine h.accepts rfl rfl (fun token heq => (Seat.cold.inj heq).symm) hdropped
      ⟨hbalanced, ?_, ?_⟩
    · have hattachment : attachment e.hooks
          ⟨prefixJob e.nextToken runId limits, p, .cold e.nextToken⟩ = none :=
        attachment_cold rfl
      have hout : (e.world.step cfg (.acquire p caps r spawn util)).out = e.world.out := by
        simp only [World.step, hanswer, Acquired.book]
      change (e.world.step cfg _).out.Perm _
      rw [hout, List.filterMap_cons_none hattachment]
      exact h.attached.out
    · have hreserved : isReserved e.hooks
          ⟨prefixJob e.nextToken runId limits, p, .cold e.nextToken⟩ = true :=
        isReserved_cold hnot rfl
      have honeoffs : (e.world.step cfg (.acquire p caps r spawn util)).oneoffs =
          e.world.oneoffs + 1 := by
        simp only [World.step, hanswer, Acquired.book]
      have hbefore := h.attached.oneoffs
      change (e.world.step cfg _).oneoffs = _
      rw [honeoffs, List.countP_cons_of_pos hreserved]
      change _ = _ + 1 + e.oneoffRuns
      omega
  | refused message => exact hrefused hanswer rfl
  | spawnFailed error => exact hrefused hanswer rfl

/-! ### A step of a thread -/

omit [F64 F] in
/-- What a step of a thread releases are runs of its instance whose hooks have not run. -/
theorem Sound.thread_releases (h : e.Sound) {seat : Seat} {script : Script}
    (hadmits : e.Admits seat script) :
    ∃ noted, ((e.threads seat).step script).log = noted ++ (e.threads seat).log ∧
      (releasedTokens noted).Nodup ∧ ∀ token ∈ releasedTokens noted,
        token ∉ e.hooks ∧ ∃ a ∈ e.accepted, a.seat = seat ∧ a.job.token = token := by
  obtain ⟨hholds, noted, hlog⟩ := Inst.step_holds (h.link seat) (h.holds seat) hadmits.passes
  have hconserved := (h.conserved seat).step (Inst.step_stepMoves (e.threads seat) script)
  have hnodup := hconserved.released_nodup
  rw [← hlog, releasedTokens_append, List.nodup_append] at hnodup
  refine ⟨noted, hlog.symm, hnodup.1, ?_⟩
  intro token ht
  have hreleased : token ∈ releasedTokens ((e.threads seat).step script).log := by
    rw [← hlog, releasedTokens_append]
    exact List.mem_append_left _ ht
  obtain ⟨j, ⟨a, ha, hseat, rfl⟩, rfl⟩ :=
    hholds.core.seen token (hconserved.seen_of_released hreleased)
  refine ⟨?_, a, ha, hseat, rfl⟩
  intro hhooked
  obtain hthread | hsession := h.released_of_hooked ha hhooked
  · rw [hseat] at hthread
    exact hnodup.2.2 _ ht _ hthread rfl
  · -- a session finishes jobs of a thread that is gone, and that releases nothing more
    obtain ⟨hgone, hunseen⟩ := h.dead_of_session ha hsession
    rw [hseat] at hgone hunseen
    rw [Inst.step_of_gone hgone script] at hconserved hreleased
    exact hunseen (hconserved.seen_of_released hreleased)

/-- A step of a thread, with the hooks of the runs it releases. -/
theorem Sound.thread_hooked (h : e.Sound) (cfg : WarmConfig) {seat : Seat} {script : Script}
    (hadmits : e.Admits seat script) (hr : Nat → HookReading F) :
    ∃ noted, ((e.threads seat).step script).log = noted ++ (e.threads seat).log ∧
      (∀ token ∈ releasedTokens noted, ∃ a ∈ e.accepted, a.seat = seat ∧ a.job.token = token) ∧
      Hooked { e with threads := Function.update e.threads seat ((e.threads seat).step script) }
        (e.runThread cfg seat script hr) (releasedTokens noted).reverse := by
  obtain ⟨noted, hlog, hnodup, hnoted⟩ := h.thread_releases hadmits
  refine ⟨noted, hlog, fun token ht => (hnoted token ht).2, ?_⟩
  have htokens := newReleases_tokens noted (e.threads seat).log
  rw [← hlog] at htokens
  have hmem : ∀ r ∈ newReleases (e.threads seat).log ((e.threads seat).step script).log,
      r.1 ∈ releasedTokens noted := by
    intro r hr'
    have hmem := List.mem_map_of_mem (f := Prod.fst) hr'
    rw [htokens] at hmem
    exact List.mem_reverse.mp hmem
  rw [← htokens]
  refine runHooks_hooked (e := { e with
    threads := Function.update e.threads seat ((e.threads seat).step script) })
    ⟨h.attached.balanced, h.attached.out, h.attached.oneoffs⟩ h.tokens ?_ ?_ ?_
  · intro r hr'
    obtain ⟨-, a, ha, -, htoken⟩ := hnoted _ (hmem r hr')
    exact ⟨a, ha, htoken⟩
  · rw [htokens]
    exact List.nodup_reverse.mpr hnodup
  · exact fun r hr' => (hnoted _ (hmem r hr')).1

theorem thread_sound (h : e.Sound) (cfg : WarmConfig) {seat : Seat} {script : Script}
    (hadmits : e.Admits seat script) (hr : Nat → HookReading F) :
    Sound (e.runThread cfg seat script hr) := by
  obtain ⟨noted, hlog, hnoted, hhooked⟩ := h.thread_hooked cfg hadmits hr
  obtain ⟨hholds, -⟩ := Inst.step_holds (h.link seat) (h.holds seat) hadmits.passes
  generalize e.runThread cfg seat script hr = e' at hhooked
  have hthreads : e'.threads = Function.update e.threads seat ((e.threads seat).step script) :=
    hhooked.threads
  have hself : e'.threads seat = (e.threads seat).step script := by
    rw [hthreads, Function.update_self]
  have hother : ∀ seat' ≠ seat, e'.threads seat' = e.threads seat' := by
    intro seat' hne
    rw [hthreads, Function.update_of_ne hne]
  have hall : ∀ {P : Seat → Inst → Prop}, P seat ((e.threads seat).step script) →
      (∀ seat', P seat' (e.threads seat')) → ∀ seat', P seat' (e'.threads seat') := by
    intro P hstep hbefore seat'
    by_cases hseat : seat' = seat
    · rw [hseat, hself]
      exact hstep
    · rw [hother seat' hseat]
      exact hbefore seat'
  have haccepted : e'.accepted = e.accepted := hhooked.accepted
  have hsessions : e'.sessions = e.sessions := hhooked.sessions
  have hhooks : e'.hooks = releasedTokens noted ++ e.hooks := by
    rw [hhooked.hooks, List.reverse_reverse]
  have hmono : ∀ seat' m, e.MayCome seat' m → e'.MayCome seat' m :=
    mayCome_mono (haccepted ▸ List.Subset.refl _) hhooked.handles
  constructor
  · exact hhooked.attached
  · exact haccepted ▸ h.tokens
  · rw [haccepted, hhooked.nextToken]
    exact h.fresh
  · exact haccepted ▸ h.linked
  · exact haccepted ▸ h.cold
  · exact hall ((h.conserved seat).step (Inst.step_stepMoves _ _)) h.conserved
  · exact hall (P := fun seat' s => s.Holds (e'.MayCome seat')) (hholds.mono (hmono seat))
      fun seat' => (h.holds seat').mono (hmono seat')
  · exact hall (Inst.advance_emptied ⟨(h.emptied seat).live, (h.emptied seat).queue⟩) h.emptied
  · exact hsessions ▸ h.session
  · rw [hsessions, haccepted]
    intro token ht
    obtain ⟨a, ha, htoken, hgone, hseen⟩ := h.dead token ht
    refine ⟨a, ha, htoken, ?_⟩
    by_cases hseat : a.seat = seat
    · rw [hseat] at hgone hseen ⊢
      rw [hself, Inst.step_of_gone hgone script]
      exact ⟨hgone, hseen⟩
    · rw [hother _ hseat]
      exact ⟨hgone, hseen⟩
  · exact hsessions ▸ h.deadOnce
  · rw [hhooks, haccepted]
    intro token ht
    obtain ht | ht := List.mem_append.mp ht
    · obtain ⟨a, ha, -, htoken⟩ := hnoted token ht
      exact ⟨a, ha, htoken⟩
    · exact h.hooked token ht
  · rw [haccepted]
    intro a ha
    rw [hhooks, hsessions, List.count_append, h.count a ha]
    by_cases hseat : a.seat = seat
    · rw [hseat, hself, hlog, releasedTokens_append, List.count_append]
      omega
    · -- the thread releases runs of its own instance only
      have hnot : a.job.token ∉ releasedTokens noted := by
        intro hmem
        obtain ⟨b, hb, hbseat, htoken⟩ := hnoted _ hmem
        exact hseat (h.unique hb ha htoken ▸ hbseat)
      rw [hother _ hseat, List.count_eq_zero_of_not_mem hnot]
      omega

theorem brings_anything (p : Passing) : Passing.Brings Anything p := by
  cases p with
  | pass d => trivial
  | arrive token event lag => trivial

/-- The session finishes a job that was not received. -/
theorem finishDead_sound (h : e.Sound) (cfg : WarmConfig) {a : AcceptedRun} (ha : a ∈ e.accepted)
    (hgone : (e.threads a.seat).isGone = true) (hunsent : ¬ e.Sent a) (script : Script)
    (hr : HookReading F) : Sound (e.finishDead cfg a script hr) := by
  have hunseen : a.job.token ∉ (e.threads a.seat).seen := fun hmem => hunsent (Or.inl hmem)
  have hnew : a.job.token ∉ releasedTokens e.sessions.log := fun hmem => hunsent (Or.inr hmem)
  -- a job that was not received was not finished by its thread
  have hfirst : a.job.token ∉ e.hooks := by
    intro hhooked
    obtain hthread | hsession := h.released_of_hooked ha hhooked
    · exact hunseen ((h.conserved a.seat).seen_of_released hthread)
    · exact hnew hsession
  have hlink := h.linked a ha
  generalize hfinished : ({ e.sessions with script := script } : Core).finishJob a.job
    (.error (.internal "warm instance thread died before completing the call")) true false = c
  have hreleased : releasedTokens c.log = a.job.token :: releasedTokens e.sessions.log := by
    obtain ⟨noted, hlog, hnoted, -⟩ := Core.Keeps.finishJob_log
      ({ e.sessions with script := script } : Core) a.job
      (.error (.internal "warm instance thread died before completing the call")) true false hlink
    rw [← hfinished, hlog, releasedTokens_append, hnoted]
    rfl
  have hholds : c.Holds Anything := by
    rw [← hfinished]
    have hpasses : ({ e.sessions with script := script } : Core).script.Passes
        (Passing.Brings Anything) :=
      ⟨fun _ _ p _ => brings_anything p, fun _ _ _ _ p _ => brings_anything p⟩
    exact (Core.Keeps.finishJob _ _ _ _ _ hlink hpasses).2.2
      ⟨h.session.queue, h.session.live, h.session.seen, h.session.answered⟩
  have hhooked : Hooked { e with sessions := c } (e.finishDead cfg a script hr) [a.job.token] := by
    unfold finishDead
    rw [hfinished]
    exact hook_hooked (e := { e with sessions := c })
      ⟨h.attached.balanced, h.attached.out, h.attached.oneoffs⟩ h.tokens ha hfirst true hr
  generalize e.finishDead cfg a script hr = e' at hhooked
  have haccepted : e'.accepted = e.accepted := hhooked.accepted
  have hthreads : e'.threads = e.threads := hhooked.threads
  have hsessions : e'.sessions = c := hhooked.sessions
  have hhooks : e'.hooks = a.job.token :: e.hooks := hhooked.hooks
  constructor
  · exact hhooked.attached
  · exact haccepted ▸ h.tokens
  · rw [haccepted, hhooked.nextToken]
    exact h.fresh
  · exact haccepted ▸ h.linked
  · exact haccepted ▸ h.cold
  · exact hthreads ▸ h.conserved
  · intro seat
    rw [hthreads]
    exact (h.holds seat).mono
      (mayCome_mono (haccepted ▸ List.Subset.refl _) hhooked.handles seat)
  · exact hthreads ▸ h.emptied
  · exact hsessions ▸ hholds
  · rw [hsessions, hreleased, haccepted, hthreads]
    intro token ht
    obtain rfl | ht := List.mem_cons.mp ht
    · exact ⟨a, ha, rfl, hgone, hunseen⟩
    · exact h.dead token ht
  · rw [hsessions, hreleased]
    exact List.nodup_cons.mpr ⟨hnew, h.deadOnce⟩
  · rw [hhooks, haccepted]
    intro token ht
    obtain rfl | ht := List.mem_cons.mp ht
    · exact ⟨a, ha, rfl⟩
    · exact h.hooked token ht
  · rw [haccepted]
    intro b hb
    rw [hhooks, hthreads, hsessions, hreleased, List.count_cons, List.count_cons, h.count b hb]
    omega

/-- What every step keeps. -/
theorem step_sound (h : e.Sound) (cfg : WarmConfig) (op : RunOp F) : Sound (e.step cfg op) := by
  cases op with
  | acquire p caps r spawn util runId limits =>
    exact acquire_sound h cfg p caps r spawn util runId limits
  | thread seat script hr =>
    unfold step
    dsimp only
    split
    · next hadmits => exact thread_sound h cfg hadmits hr
    · exact h
  | sendFails token script hr =>
    unfold step
    dsimp only
    split
    · exact h
    · next a hfind =>
      split
      · next hdead =>
        exact finishDead_sound h cfg (List.mem_of_find?_eq_some hfind) hdead.1 hdead.2 script hr
      · exact h
  | disposePrefix p => exact h.call cfg (.disposePrefix p) rfl rfl
  | reserveOneoff cap r =>
    refine h.call cfg (.reserveOneoff cap r) rfl ?_
    simp only [World.step]
    split
    · omega
    · rfl
  | releaseOneoff tainted wallMs cpuMs r =>
    unfold step
    dsimp only
    split
    · exact h
    · next hpos =>
      have hworld : ¬ e.world.oneoffs = 0 := by
        have honeoffs := h.attached.oneoffs
        omega
      refine h.call cfg (.releaseOneoff tainted wallMs cpuMs r) ?_ ?_
      · simp only [World.step]
        rw [if_neg hworld]
      · simp only [World.step]
        rw [if_neg hworld]
        dsimp only
        omega

theorem finishDead_threads (e : Engine F) (cfg : WarmConfig) (a : AcceptedRun) (script : Script)
    (hr : HookReading F) : (e.finishDead cfg a script hr).threads = e.threads := by
  unfold finishDead hook
  split <;> rfl

/-- No thread dropped a job. -/
def NoneLost (e : Engine F) : Prop := ∀ seat, (e.threads seat).lost = []

omit [F64 F] in
/-- A step of a thread that keeps to `DropsNone` drops no job. -/
theorem thread_lost (h : e.Sound) {seat : Seat} {script : Script} (hadmits : e.Admits seat script)
    (hdrops : ((e.threads seat).load script).DropsNone) (hlost : (e.threads seat).lost = []) :
    ((e.threads seat).step script).lost = [] := by
  by_cases hd : e.HandleDropped seat
  · obtain ⟨hholds, noted, hlog⟩ := Inst.step_holds (h.link seat) (h.holds seat) hadmits.passes
    have hconserved := (h.conserved seat).step (Inst.step_stepMoves (e.threads seat) script)
    refine List.eq_nil_iff_forall_not_mem.mpr fun token ht => ?_
    -- the hook of every run of the instance ran, so its job was finished
    obtain ⟨j, ⟨a, ha, hseat, rfl⟩, rfl⟩ := hholds.core.seen token (hconserved.seen_of_lost ht)
    obtain hthread | hsession := h.released_of_hooked ha (h.hooked_of_dropped ha (hseat.symm ▸ hd))
    · refine hconserved.not_released_of_lost ht ?_
      rw [← hlog, releasedTokens_append]
      exact List.mem_append_right _ (hseat ▸ hthread)
    · have hgone := (h.dead_of_session ha hsession).1
      rw [hseat] at hgone
      rw [Inst.step_of_gone hgone script] at ht
      change _ ∈ (e.threads seat).lost at ht
      rw [hlost] at ht
      exact absurd ht List.not_mem_nil
  · -- the handle is a sender, and sends `Retire` only when it is dropped
    have hholds : ((e.threads seat).load script).Holds (e.MayCome seat) := by
      have hbefore := h.holds seat
      exact ⟨⟨hbefore.core.queue, hbefore.core.live, hbefore.core.seen, hbefore.core.answered⟩,
        hbefore.hand, hbefore.retired⟩
    have hhung : script.hungUp = false :=
      Bool.eq_false_iff.mpr fun hhung => hd (hadmits.hungUp hhung)
    exact (Inst.advance_lost hholds hadmits.passes hd hhung hdrops).trans hlost

theorem step_noneLost (h : e.Sound) (hlost : e.NoneLost) {cfg : WarmConfig} {op : RunOp F}
    (hdrops : e.DropsNone op) : (e.step cfg op).NoneLost := by
  cases op with
  | thread seat script hr =>
    unfold step
    dsimp only
    split
    · next hadmits =>
      obtain ⟨noted, -, -, hhooked⟩ := h.thread_hooked cfg hadmits hr
      have hthreads : (e.runThread cfg seat script hr).threads =
          Function.update e.threads seat ((e.threads seat).step script) := hhooked.threads
      intro seat'
      rw [hthreads]
      by_cases hseat : seat' = seat
      · rw [hseat, Function.update_self]
        exact thread_lost h hadmits (hdrops hadmits) (hlost seat)
      · rw [Function.update_of_ne hseat]
        exact hlost seat'
    · exact hlost
  | sendFails token script hr =>
    unfold step
    dsimp only
    split
    · exact hlost
    · next a hfind =>
      split
      · intro seat
        rw [finishDead_threads]
        exact hlost seat
      · exact hlost
  | releaseOneoff tainted wallMs cpuMs r =>
    unfold step
    dsimp only
    split
    · exact hlost
    · exact hlost
  | acquire p caps r spawn util runId limits => exact hlost
  | disposePrefix p => exact hlost
  | reserveOneoff cap r => exact hlost

/-- What a step leaves of dropped jobs was there before. -/
theorem noneLost_of_step (h : e.Sound) {cfg : WarmConfig} {op : RunOp F}
    (hlost : (e.step cfg op).NoneLost) : e.NoneLost ∧ e.DropsNone op := by
  cases op with
  | thread seat script hr =>
    unfold step at hlost
    dsimp only at hlost
    split at hlost
    · next hadmits =>
      obtain ⟨noted, -, -, hhooked⟩ := h.thread_hooked cfg hadmits hr
      have hthreads : (e.runThread cfg seat script hr).threads =
          Function.update e.threads seat ((e.threads seat).step script) := hhooked.threads
      have hself : ((e.threads seat).step script).lost = [] := by
        have hseat := hlost seat
        rwa [hthreads, Function.update_self] at hseat
      refine ⟨?_, fun _ => Inst.dropsNone_of_advance hself⟩
      intro seat'
      by_cases hseat : seat' = seat
      · have hstays := Inst.lost_prefix_advance ((e.threads seat).load script)
        rw [hseat]
        exact List.prefix_nil.mp (hself ▸ hstays)
      · have hother := hlost seat'
        rwa [hthreads, Function.update_of_ne hseat] at hother
    · next hnot => exact ⟨hlost, fun hadmits => absurd hadmits hnot⟩
  | sendFails token script hr =>
    refine ⟨?_, trivial⟩
    unfold step at hlost
    dsimp only at hlost
    split at hlost
    · exact hlost
    · next a hfind =>
      split at hlost
      · intro seat
        have hseat := hlost seat
        rwa [finishDead_threads] at hseat
      · exact hlost
  | releaseOneoff tainted wallMs cpuMs r =>
    refine ⟨?_, trivial⟩
    unfold step at hlost
    dsimp only at hlost
    split at hlost
    · exact hlost
    · exact hlost
  | acquire p caps r spawn util runId limits => exact ⟨hlost, trivial⟩
  | disposePrefix p => exact ⟨hlost, trivial⟩
  | reserveOneoff cap r => exact ⟨hlost, trivial⟩

/-! ### Every run -/

omit [F64 F] in
/-- A run whose hook has not run is on its way. -/
theorem Sound.pending (h : e.Sound) (hlost : e.NoneLost) {a : AcceptedRun} (ha : a ∈ e.accepted)
    (hnot : a.job.token ∉ e.hooks) : ¬ e.Sent a ∨ e.InHand a := by
  by_cases hsent : e.Sent a
  · refine Or.inr ?_
    have hcount := h.count a ha
    rw [List.count_eq_zero_of_not_mem hnot] at hcount
    have hthread : a.job.token ∉ releasedTokens (e.threads a.seat).log :=
      List.count_eq_zero.mp (by omega)
    have hsession : a.job.token ∉ releasedTokens e.sessions.log :=
      List.count_eq_zero.mp (by omega)
    -- every token the thread has seen is in one of its places
    have hseen := Multiset.mem_coe.mpr (hsent.resolve_right hsession)
    rw [← (h.conserved a.seat).places, hlost a.seat, Multiset.mem_add, Multiset.mem_add,
      Core.tokens, Multiset.mem_add, Multiset.mem_add] at hseen
    obtain (hhand | (hlive | hqueue) | hreleased) | hlost := hseen
    · exact Or.inl hhand
    · exact Or.inr (Or.inl (Multiset.mem_coe.mp hlive))
    · exact Or.inr (Or.inr (Multiset.mem_coe.mp hqueue))
    · exact absurd (Multiset.mem_coe.mp hreleased) hthread
    · exact absurd (Multiset.mem_coe.mp hlost) List.not_mem_nil
  · exact Or.inl hsent

omit [F64 F] in
/-- A thread that is gone has no run in hand. -/
theorem Sound.not_inHand (h : e.Sound) {a : AcceptedRun}
    (hgone : (e.threads a.seat).isGone = true) : ¬ e.InHand a := by
  have hpc := Inst.isGone_iff.mp hgone
  have hemptied := h.emptied a.seat
  rintro (hhand | hlive | hqueue)
  · rw [hpc] at hhand
    exact absurd hhand (Multiset.notMem_zero _)
  · rw [hemptied.live (by rw [hpc]; rfl)] at hlive
    exact absurd hlive List.not_mem_nil
  · rw [hemptied.queue hpc] at hqueue
    exact absurd hqueue List.not_mem_nil

omit [F64 F] in
theorem Sound.hooks_le_one (h : e.Sound) {a : AcceptedRun} (ha : a ∈ e.accepted) :
    e.hooks.count a.job.token ≤ 1 := by
  rw [h.count a ha]
  have hthread := List.nodup_iff_count_le_one.mp (h.conserved a.seat).released_nodup a.job.token
  have hsession := List.nodup_iff_count_le_one.mp h.deadOnce a.job.token
  by_cases hdead : a.job.token ∈ releasedTokens e.sessions.log
  · -- what its session finished the thread never received
    have hnot : a.job.token ∉ releasedTokens (e.threads a.seat).log := fun hmem =>
      (h.dead_of_session ha hdead).2 ((h.conserved a.seat).seen_of_released hmem)
    rw [List.count_eq_zero_of_not_mem hnot]
    omega
  · rw [List.count_eq_zero_of_not_mem hdead]
    omega

omit [F64 F] in
theorem Sound.answeredOnce (h : e.Sound) (hlost : e.NoneLost) : e.AnsweredOnce where
  once := fun a ha => h.hooks_le_one ha
  only := h.hooked
  pending := fun a ha hnot => h.pending hlost ha hnot
  ended := by
    intro a ha hgone hsent
    have hle := h.hooks_le_one ha
    have hmem : a.job.token ∈ e.hooks := by
      by_contra hnot
      obtain hunsent | hhand := h.pending hlost ha hnot
      · exact hunsent hsent
      · exact h.not_inHand hgone hhand
    have hpos := List.count_pos_iff.mpr hmem
    omega
  attached := h.attached
  messages := by
    intro a ha
    have hthread := (h.holds a.seat).core.answered a.job.token
    have hsession := h.session.answered a.job.token
    rw [h.count a ha]
    unfold finals refusals
    omega
  elsewhere := by
    intro a ha seat hne
    have hthread := (h.holds seat).core.answered a.job.token
    have hnot : a.job.token ∉ releasedTokens (e.threads seat).log := by
      intro hmem
      obtain ⟨b, hb, hseat, htoken⟩ := h.seen ((h.conserved seat).seen_of_released hmem)
      exact hne (h.unique hb ha htoken ▸ hseat).symm
    rw [List.count_eq_zero_of_not_mem hnot] at hthread
    omega

omit [F64 F] in
/-- A dropped job is in no other place, so its run is not on its way. -/
theorem Sound.noneLost (h : e.Sound) (hanswered : e.AnsweredOnce) : e.NoneLost := by
  intro seat
  refine List.eq_nil_iff_forall_not_mem.mpr fun token ht => ?_
  have hconserved := h.conserved seat
  have hseen := hconserved.seen_of_lost ht
  obtain ⟨a, ha, rfl, rfl⟩ := h.seen hseen
  have hnot : a.job.token ∉ e.hooks := by
    intro hhooked
    obtain hthread | hsession := h.released_of_hooked ha hhooked
    · exact hconserved.not_released_of_lost ht hthread
    · exact (h.dead_of_session ha hsession).2 hseen
  obtain hunsent | hhand := hanswered.pending a ha hnot
  · exact hunsent (Or.inl hseen)
  · -- a token is in one place at most
    obtain ⟨-, -, hplaces⟩ := Multiset.nodup_add.mp hconserved.places_nodup
    refine Multiset.disjoint_left.mp hplaces ?_ (Multiset.mem_coe.mpr ht)
    rw [Multiset.mem_add, Core.tokens, Multiset.mem_add, Multiset.mem_add]
    obtain hhand | hlive | hqueue := hhand
    · exact Or.inl hhand
    · exact Or.inr (Or.inl (Or.inl (Multiset.mem_coe.mpr hlive)))
    · exact Or.inr (Or.inl (Or.inr (Multiset.mem_coe.mpr hqueue)))

end Steps

/-- Only in such a run does no thread drop a job. -/
theorem along_of_noneLost {cfg : WarmConfig} {e : Engine F} (h : e.Sound) {ops : List (RunOp F)}
    (hlost : NoneLost (exec (step cfg) e ops)) : e.NoneLost ∧ Along (step cfg) DropsNone e ops := by
  induction ops generalizing e with
  | nil => exact ⟨hlost, trivial⟩
  | cons op ops ih =>
    -- a job dropped in this step would still be missing at the end
    obtain ⟨hnext, hrest⟩ := ih (step_sound h cfg op) hlost
    obtain ⟨hbefore, hdrops⟩ := noneLost_of_step h hnext
    exact ⟨hbefore, hdrops, hrest⟩

/-- Every accepted run is answered once, in a run in which no thread drops a job, and in no
other. -/
theorem answered_once (cfg : WarmConfig) (ops : List (RunOp F)) :
    AnsweredOnce (exec (step cfg) (Engine.new F) ops) ↔
      Along (step cfg) DropsNone (Engine.new F) ops := by
  have hsound : Sound (exec (step cfg) (Engine.new F) ops) :=
    exec_invariant (I := fun e : Engine F => e.Sound) (fun _ op he => step_sound he cfg op)
      new_sound ops
  constructor
  · intro h
    exact (along_of_noneLost new_sound (hsound.noneLost h)).2
  · intro h
    refine hsound.answeredOnce ?_
    have hinv : Sound (exec (step cfg) (Engine.new F) ops) ∧
        NoneLost (exec (step cfg) (Engine.new F) ops) := by
      refine Along.invariant (I := fun e => Sound e ∧ NoneLost e) ?_ ?_ h
      · intro e op he hdrops
        exact ⟨step_sound he.1 cfg op, step_noneLost he.1 he.2 hdrops⟩
      · exact ⟨new_sound, fun _ => rfl⟩
    exact hinv.2

/-! ### A job that the sweep holds -/

def oneCore : WarmConfig := ⟨0, 0, 0, 1⟩

def readsNothing : Reading Float := ⟨none, 0, 0, .insertion Float⟩

def noFindings (_ : Nat) : HookReading Float :=
  ⟨false, 0, F64.ofNat 1, F64.ofNat 1, true, readsNothing⟩

/-- A run of the prefix is attached. -/
def attaches (runId : Nat) : RunOp Float :=
  .acquire "p" ⟨0, 0⟩ readsNothing (.ok ()) (fun _ => 0) runId ⟨0, 0, 0, 0⟩

/-- The session of the run sends its job. -/
def sends (token : Nat) : Passing := .arrive token (.job (prefixJob token token ⟨0, 0, 0, 0⟩)) 0

/-- The call arms a timer of 5 ms and stays pending. -/
def armsTimer : List Slice :=
  [Slice.idle, Slice.idle, Slice.idle, Slice.idle,
    { Slice.idle with acts := [.setTimeout 1 5], completion := .promise .pending }]

/-- Two runs are attached to one instance.  The second job is sent when the timer of the first run
is due, and its callback does this. -/
def timerThenSecond (callback : List GuestAct) : List (RunOp Float) :=
  [attaches 1, attaches 2] ++
    [Inst.waiting [sends 1], Script.silent, Inst.running armsTimer, Script.silent,
      Inst.waiting [.pass (fromMillis 10), sends 2],
      Inst.running [{ Slice.idle with acts := callback }], Script.silent, Script.silent,
      Inst.running (Inst.callReturns .fulfilled), Script.silent].map
        fun script => .thread (.pooled 1) script noFindings

/-- When the heap limit ends the callback, the second run goes unanswered. -/
theorem job_dropped : ¬ ∀ (cfg : WarmConfig) (ops : List (RunOp Float)),
    AnsweredOnce (exec (step cfg) (Engine.new Float) ops) := by
  intro h
  have haccepted : (exec (step oneCore) (Engine.new Float)
      (timerThenSecond [.kill .memory])).accepted =
    [⟨prefixJob 2 2 ⟨0, 0, 0, 0⟩, "p", .pooled 1⟩,
      ⟨prefixJob 1 1 ⟨0, 0, 0, 0⟩, "p", .pooled 1⟩] := rfl
  have hgone : ((exec (step oneCore) (Engine.new Float)
      (timerThenSecond [.kill .memory])).threads (.pooled 1)).isGone = true := rfl
  have hseen : ((exec (step oneCore) (Engine.new Float)
      (timerThenSecond [.kill .memory])).threads (.pooled 1)).seen = [2, 1] := rfl
  have hhooks : (exec (step oneCore) (Engine.new Float)
      (timerThenSecond [.kill .memory])).hooks = [1] := rfl
  have hended := (h oneCore (timerThenSecond [.kill .memory])).ended
    ⟨prefixJob 2 2 ⟨0, 0, 0, 0⟩, "p", .pooled 1⟩ (by rw [haccepted]; exact List.mem_cons_self) hgone
    (Or.inl (by rw [hseen]; exact List.mem_cons_self))
  rw [hhooks] at hended
  exact absurd hended (by decide)

/-- When it settles the first run, both are answered. -/
example : (exec (step oneCore) (Engine.new Float)
    (timerThenSecond [.settleRoot 1 .fulfilled])).hooks = [2, 1] := rfl

end Engine

end Engine

end Iso4
