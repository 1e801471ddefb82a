/-
What turn code does to the shared world, effect by effect.

Turn code advances the clock and takes in what arrives, uses the script up,
notes the messages it sends, and records or looks at a termination reason.
`Core.Closed P T R` says that a relation `R` between worlds is respected by
each of these, for passings in `P` and messages of the runs in `T`.

* `Turn.core_handle` — then every operation of turn code respects it;
* `Turn.core_run` — and so does every program of them.
-/
import Iso4.Guest

namespace Iso4

open Program

/-! ### What is left of the script -/

/-- A script some of which was used up. -/
structure Script.Rest (sc sc' : Script) : Prop where
  clocks : sc'.clocks <:+ sc.clocks
  fires : sc'.fires <:+ sc.fires
  slices : sc'.slices <:+ sc.slices
  getters : sc'.getters <:+ sc.getters
  sends : sc'.sends <:+ sc.sends

namespace Script.Rest

variable {sc sc' sc'' : Script}

theorem refl (sc : Script) : Rest sc sc :=
  ⟨List.suffix_refl _, List.suffix_refl _, List.suffix_refl _, List.suffix_refl _, List.suffix_refl _⟩

theorem trans (h : Rest sc sc') (h' : Rest sc' sc'') : Rest sc sc'' where
  clocks := h'.clocks.trans h.clocks
  fires := h'.fires.trans h.fires
  slices := h'.slices.trans h.slices
  getters := h'.getters.trans h.getters
  sends := h'.sends.trans h.sends

theorem of_eq (h : sc' = sc) : Rest sc sc' := h ▸ refl sc

end Script.Rest

/-- Turn code only uses the script up. -/
def Core.Spends (c c' : Core) : Prop := Script.Rest c.script c'.script

namespace Core.Spends

theorem refl (c : Core) : Spends c c := Script.Rest.refl _

theorem trans {c c' c'' : Core} (h : Spends c c') (h' : Spends c' c'') : Spends c c'' :=
  Script.Rest.trans h h'

theorem arrive (c : Core) (token : Nat) (event : RunEvent) (lag : Nat) :
    (c.arrive token event lag).script = c.script := by
  cases event with
  | job j =>
    rw [Core.arrive]
    split <;> rfl
  | host m =>
    rw [Core.arrive]
    split <;> rfl
  | retire => rfl

theorem passOne (c : Core) (p : Passing) : (c.passOne p).script = c.script := by
  cases p with
  | pass d => rfl
  | arrive token event lag => exact arrive c token event lag

theorem passAll_script (c : Core) (ps : List Passing) : (c.passAll ps).script = c.script := by
  induction ps generalizing c with
  | nil => rfl
  | cons p ps ih =>
    rw [Core.passAll, List.foldl_cons]
    exact (ih (c.passOne p)).trans (passOne c p)

theorem popClock (c : Core) : Spends c c.popClock :=
  { Script.Rest.refl c.script with clocks := List.tail_suffix _ }

theorem popFire (c : Core) : Spends c c.popFire :=
  { Script.Rest.refl c.script with fires := List.tail_suffix _ }

theorem popSlice (c : Core) : Spends c c.popSlice :=
  { Script.Rest.refl c.script with slices := List.tail_suffix _ }

theorem popGetter (c : Core) : Spends c c.popGetter :=
  { Script.Rest.refl c.script with getters := List.tail_suffix _ }

theorem popSend (c : Core) : Spends c c.popSend :=
  { Script.Rest.refl c.script with sends := List.tail_suffix _ }

end Core.Spends

/-- Everything that passes while the script is played is in `P`. -/
structure Script.Passes (P : Passing → Prop) (sc : Script) : Prop where
  clocks : ∀ ps ∈ sc.clocks, ∀ p ∈ ps, P p
  acts : ∀ sl ∈ sc.slices ++ sc.getters, ∀ ps, .elapse ps ∈ sl.acts → ∀ p ∈ ps, P p

theorem Script.Passes.rest {P : Passing → Prop} {sc sc' : Script} (h : Passes P sc)
    (hr : Rest sc sc') : Passes P sc' where
  clocks := fun ps hps => h.clocks ps (hr.clocks.subset hps)
  acts := by
    intro sl hsl
    refine h.acts sl ?_
    rcases List.mem_append.mp hsl with hsl | hsl
    · exact List.mem_append_left _ (hr.slices.subset hsl)
    · exact List.mem_append_right _ (hr.getters.subset hsl)

theorem Script.passes_any (sc : Script) : sc.Passes fun _ => True :=
  ⟨fun _ _ _ _ => trivial, fun _ _ _ _ _ _ => trivial⟩

/-- What passes during an act of guest JS. -/
def GuestAct.elapses : GuestAct → List Passing
  | .elapse ps => ps
  | _ => []

theorem Script.passes_iff {P : Passing → Prop} {sc : Script} :
    (∀ ps ∈ sc.clocks, ∀ p ∈ ps, P p) ∧
        (∀ sl ∈ sc.slices ++ sc.getters, ∀ a ∈ sl.acts, ∀ p ∈ a.elapses, P p) ↔ sc.Passes P := by
  constructor
  · rintro ⟨hclocks, hacts⟩
    exact ⟨hclocks, fun sl hsl ps hps => hacts sl hsl (.elapse ps) hps⟩
  · rintro ⟨hclocks, hacts⟩
    refine ⟨hclocks, ?_⟩
    intro sl hsl a ha p hp
    cases a with
    | elapse ps => exact hacts sl hsl ps ha p hp
    | _ => exact absurd hp List.not_mem_nil

instance Script.decidablePasses (P : Passing → Prop) [DecidablePred P] (sc : Script) :
    Decidable (sc.Passes P) := decidable_of_iff _ Script.passes_iff

/-! ### Closed relations -/

/-- A relation between worlds that the effects of turn code respect. -/
structure Core.Closed (P : Passing → Prop) (T : Nat → Prop) (R : Core → Core → Prop) : Prop where
  trans : ∀ {c c' c''}, R c c' → R c' c'' → R c c''
  /-- What does not show in the relation. -/
  quiet : ∀ {c c' : Core}, c'.clock = c.clock → c'.queue = c.queue → c'.seen = c.seen →
    c'.log = c.log → c'.script = c.script → c'.lastRead = c.lastRead → c'.reason = c.reason → R c c'
  spend : ∀ (c : Core) (sc : Script), Script.Rest c.script sc → R c { c with script := sc }
  pass : ∀ (c : Core) (p : Passing), P p → R c (c.passOne p)
  kill : ∀ (c : Core) (r : TerminationReason), R c (c.kill r)
  sent : ∀ (c : Core) (token : Nat) (msg : Outbound), T token → msg.IsFrame →
    R c (c.send token msg).2

/-- A looking operation: it takes note of the reason it saw. -/
def Op.looks : ∀ {γ : Type}, Op γ → Bool
  | _, .reason => true
  | _, _ => false

namespace Core.Closed

variable {P : Passing → Prop} {T : Nat → Prop} {R : Core → Core → Prop} (hR : Closed P T R)

include hR

theorem refl (c : Core) : R c c := hR.quiet rfl rfl rfl rfl rfl rfl rfl

theorem passAll (c : Core) {ps : List Passing} (hP : ∀ p ∈ ps, P p) : R c (c.passAll ps) := by
  induction ps generalizing c with
  | nil => exact hR.refl c
  | cons p ps ih =>
    refine hR.trans (hR.pass c p (hP p List.mem_cons_self)) ?_
    exact ih (c.passOne p) fun q hq => hP q (List.mem_cons_of_mem _ hq)

theorem now {c : Core} (hP : c.script.Passes P) : R c c.now.2 := by
  refine hR.trans (hR.spend c _ (Core.Spends.popClock c)) (hR.passAll _ fun p hp => ?_)
  cases hc : c.script.clocks with
  | nil =>
    rw [hc] at hp
    cases hp
  | cons ps rest =>
    rw [hc] at hp
    exact hP.clocks ps (hc ▸ List.mem_cons_self) p hp

theorem fire (c : Core) (r : TerminationReason) : R c (c.fire r) := by
  unfold Core.fire
  split
  · exact hR.kill c r
  · exact hR.refl c

theorem race (c : Core) : R c c.race := by
  have hpop := hR.spend c _ (Core.Spends.popFire c)
  unfold Core.race
  split
  · exact hR.trans hpop (hR.fire _ _)
  · exact hpop

theorem arm (c : Core) (t : TurnTarget) : R c (c.arm t) := hR.quiet rfl rfl rfl rfl rfl rfl rfl

theorem disarm (c : Core) : R c c.disarm :=
  hR.trans (hR.race c) (hR.quiet rfl rfl rfl rfl rfl rfl rfl)

theorem isTerminating (c : Core) : R c c.isTerminating.2 := by
  have hnoted : R c { c with terminating := c.isTerminating.1 } :=
    hR.quiet rfl rfl rfl rfl rfl rfl rfl
  refine hR.trans hnoted (hR.spend _ _ ?_)
  exact ⟨List.suffix_refl _, List.suffix_refl _, List.suffix_refl _, List.suffix_refl _,
    List.suffix_refl _⟩

end Core.Closed

/-! ### The script is only used up -/

theorem Core.closed_spends : Core.Closed (fun _ => True) (fun _ => True) Core.Spends where
  trans := .trans
  quiet := fun _ _ _ _ hs _ _ => Script.Rest.of_eq hs
  spend := fun _ _ h => h
  pass := fun c p _ => Script.Rest.of_eq (Core.Spends.passOne c p)
  kill := fun _ _ => .refl _
  sent := fun c _ _ _ _ => Core.Spends.popSend c

namespace Core.Spends

theorem passAll (c : Core) (ps : List Passing) : Spends c (c.passAll ps) :=
  closed_spends.passAll c fun _ _ => trivial

theorem now (c : Core) : Spends c c.now.2 := closed_spends.now c.script.passes_any

theorem fire (c : Core) (r : TerminationReason) : Spends c (c.fire r) := closed_spends.fire c r

theorem race (c : Core) : Spends c c.race := closed_spends.race c

end Core.Spends

/-! ### Turns -/

namespace Turn

/-- The runs in flight are in `T`. -/
def Among (T : Nat → Prop) (t : Turn) : Prop := T t.owner.token ∧ ∀ l ∈ t.live, T l.token

variable {P : Passing → Prop} {T : Nat → Prop} {R : Core → Core → Prop} (hR : Core.Closed P T R)

theorem Among.frame {t t' : Turn} (h : t.Among T) (hf : Frame t t') : t'.Among T := by
  refine ⟨hf.token ▸ h.1, fun l hl => ?_⟩
  obtain ⟨i, hi, rfl⟩ := List.getElem_of_mem hl
  have hlen := hf.core.live.length_eq
  have hr := hf.core.live.get (by omega) hi
  rw [List.get_eq_getElem, List.get_eq_getElem] at hr
  rw [hr.token]
  exact h.2 _ (List.getElem_mem _)

theorem Among.attributed {t : Turn} (h : t.Among T) (rider : Nat) : T (t.attributed rider).token := by
  unfold Turn.attributed Turn.run?
  split
  · exact h.1
  · cases hf : t.live.find? fun l => l.token = rider with
    | none => exact h.1
    | some l => exact h.2 l (List.mem_of_find?_eq_some hf)

include hR

theorem core_onRun (t : Turn) (token : Nat) (f : RunState → RunState) :
    R t.toCore (t.onRun token f).toCore := by
  unfold Turn.onRun
  split
  · exact hR.refl _
  · exact hR.quiet rfl rfl rfl rfl rfl rfl rfl

theorem core_sendFor (t : Turn) (l : LiveRun) {msg : Outbound} (hl : T l.token) (hm : msg.IsFrame) :
    R t.toCore (t.sendFor l msg).2.toCore := by
  unfold Turn.sendFor
  split
  · exact hR.sent _ _ _ hl hm
  · exact hR.refl _

theorem core_fatalBridgeError (t : Turn) (token : Nat) (e : RunError) :
    R t.toCore (t.fatalBridgeError token e).toCore :=
  hR.trans (core_onRun hR t token _) (hR.quiet rfl rfl rfl rfl rfl rfl rfl)

theorem core_putTimers (t : Turn) (token : Nat) (timers : TimerTable) :
    R t.toCore (t.putTimers token timers).toCore :=
  hR.trans (core_onRun hR t token _) (hR.quiet rfl rfl rfl rfl rfl rfl rfl)

theorem core_act (t : Turn) (a : GuestAct) (hT : t.Among T) (hP : ∀ ps, a = .elapse ps → ∀ p ∈ ps, P p) :
    R t.toCore (t.act a).toCore := by
  cases a with
  | elapse ps => exact hR.passAll _ (hP ps rfl)
  | fire r => exact hR.fire _ _
  | kill r => exact hR.kill _ _
  | settleRoot token st => exact core_onRun hR _ _ _
  | settleWait token i st => exact core_onRun hR _ _ _
  | settlePull token id st => exact core_onRun hR _ _ _
  | waitUntil rider st => exact core_onRun hR _ _ _
  | setTimeout rider leadMs =>
    change R _ (t.setTimeoutCallback _ _).toCore
    unfold Turn.setTimeoutCallback
    split
    · exact hR.refl _
    · exact core_putTimers hR _ _ _
  | clearTimeout rider id =>
    change R _ (t.clearTimeoutCallback _ _).toCore
    unfold Turn.clearTimeoutCallback
    split
    · exact hR.refl _
    · exact core_putTimers hR _ _ _
  | bridgeCall rider callId =>
    change R _ (t.bridgeGlobalCallback _ _).toCore
    unfold Turn.bridgeGlobalCallback
    split
    · exact hR.refl _
    · split
      · exact hR.refl _
      · have hs : R t.toCore (t.sendFor (t.attributed rider) (.bridgeCall callId)).2.toCore :=
          core_sendFor hR t (t.attributed rider) (hT.attributed rider) trivial
        split
        · next heq =>
          rw [heq] at hs
          exact hR.trans hs (core_onRun hR _ _ _)
        · next heq =>
          rw [heq] at hs
          exact hR.trans hs (core_fatalBridgeError hR _ _ _)
  | fatalBridge rider e => exact core_fatalBridgeError hR _ _ _
  | streamRead rider id =>
    change R _ (t.streamReadCallback _ _).toCore
    unfold Turn.streamReadCallback
    split
    · exact hR.refl _
    · split
      · split
        · exact core_onRun hR _ _ _
        · exact hR.trans (core_onRun hR _ _ _) (core_sendFor hR _ _ (hT.attributed rider) trivial)
      · split
        · exact hR.refl _
        · exact core_onRun hR _ _ _
  | streamCancel rider id =>
    change R _ (t.streamCancelCallback _ _).toCore
    unfold Turn.streamCancelCallback
    split
    · exact hR.refl _
    · split
      · exact hR.trans (core_onRun hR _ _ _) (core_sendFor hR _ _ (hT.attributed rider) trivial)
      · exact core_onRun hR _ _ _
  | hydrate id => exact hR.refl _
  | registerOut =>
    change R _ t.registerOutStream.toCore
    unfold Turn.registerOutStream
    split <;> exact hR.refl _

theorem core_actAll (t : Turn) (acts : List GuestAct) (hT : t.Among T)
    (hP : ∀ ps, .elapse ps ∈ acts → ∀ p ∈ ps, P p) : R t.toCore (t.actAll acts).toCore := by
  induction acts generalizing t with
  | nil => exact hR.refl _
  | cons a acts ih =>
    rw [Turn.actAll]
    split
    · exact hR.refl _
    · refine hR.trans (core_act hR t a hT ?_) (ih _ (hT.frame (Frame.act t a)) ?_)
      · rintro ps rfl
        exact hP ps List.mem_cons_self
      · exact fun ps hps => hP ps (List.mem_cons_of_mem _ hps)

/-- Every operation of turn code respects the relation. -/
theorem core_handle (γ : Type) (o : Op γ) (t : Turn) (ho : Op.Post γ o) (hT : t.Among T)
    (hP : t.script.Passes P)
    (hlook : o.looks = true → ∀ c : Core, R c { c with lastRead := c.reason }) :
    R t.toCore (Turn.handle γ o t).2.toCore := by
  cases o with
  | now => exact hR.now hP
  | reason => exact hR.trans (hR.race t.toCore) (hlook rfl _)
  | resetReason => exact ho.elim
  | terminating => exact hR.isTerminating _
  | cancelTerminate => exact hR.quiet rfl rfl rfl rfl rfl rfl rfl
  | arm =>
    change R _ t.arm.toCore
    unfold Turn.arm
    split
    · exact hR.arm _ _
    · split
      · exact hR.trans (hR.now hP) (hR.arm _ _)
      · exact hR.arm _ _
  | disarm => exact hR.disarm _
  | js =>
    refine hR.trans (hR.spend _ _ (Core.Spends.popSlice t.toCore)) ?_
    refine core_actAll hR (t.onCore Core.popSlice) _ hT fun ps hps => ?_
    cases hs : t.script.slices with
    | nil =>
      rw [hs] at hps
      cases hps
    | cons sl rest =>
      rw [hs] at hps
      exact hP.acts sl (List.mem_append_left _ (hs ▸ List.mem_cons_self)) ps hps
  | read =>
    refine hR.trans (hR.spend _ _ (Core.Spends.popGetter t.toCore)) ?_
    refine core_actAll hR (t.onCore Core.popGetter) _ hT fun ps hps => ?_
    cases hs : t.script.getters with
    | nil =>
      rw [hs] at hps
      cases hps
    | cons sl rest =>
      rw [hs] at hps
      exact hP.acts sl (List.mem_append_right _ (hs ▸ List.mem_cons_self)) ps hps
  | resultStreamMode on => exact hR.quiet rfl rfl rfl rfl rfl rfl rfl
  | self => exact hR.refl _
  | entry f => exact hR.refl _
  | resolved callId => exact hR.refl _
  | root st callPending rootIsCallResult => exact ho.elim
  | graceStatus s => exact hR.refl _
  | graceError e => exact hR.refl _
  | beginGrace exports hasGrace hasStreams => exact ho.elim
  | send msg => exact core_sendFor hR _ _ hT.1 ho

/-- And so does the switch to the post-Result phase, if the early `Result` does. -/
theorem core_beginGrace (t : Turn) (exports : Nat) (hasGrace hasStreams : Bool)
    (hP : t.script.Passes P)
    (hearly : ∀ c : Core, R c
      (c.send t.owner.token (.result (.success exports (backgroundFlags hasGrace hasStreams)))).2) :
    R t.toCore (t.beginGrace exports hasGrace hasStreams).toCore := by
  have hnow := hR.now hP
  have hP₁ := hP.rest (Core.Spends.now t.toCore)
  have hfreeze : R t.toCore t.freezeCounted.toCore := hR.trans hnow (hR.now hP₁)
  have hP₂ : t.freezeCounted.script.Passes P := hP₁.rest (Core.Spends.now _)
  have hsent : R t.freezeCounted.toCore
      (t.freezeCounted.sendEarlyResult exports hasGrace hasStreams).2.toCore := by
    unfold Turn.sendEarlyResult
    split
    · exact hearly _
    · exact hR.refl _
  have hP₃ : (t.freezeCounted.sendEarlyResult exports hasGrace hasStreams).2.script.Passes P := by
    refine hP₂.rest ?_
    unfold Turn.sendEarlyResult
    split
    · exact Core.Spends.popSend t.freezeCounted.toCore
    · exact Script.Rest.refl _
  exact hR.trans hfreeze (hR.trans hsent (hR.now hP₃))

/-- A relation that every send and every reset of the reason cell respect. -/
theorem core_handle_all (hT : ∀ token, T token) (hlook : ∀ c : Core, R c { c with lastRead := c.reason })
    (hreset : ∀ c : Core, R c c.resetReason)
    (hsend : ∀ (c : Core) (token : Nat) (msg : Outbound), R c (c.send token msg).2)
    (γ : Type) (o : Op γ) (t : Turn) (hP : t.script.Passes P) :
    R t.toCore (Turn.handle γ o t).2.toCore := by
  by_cases ho : Op.Post γ o
  · exact core_handle hR γ o t ho ⟨hT _, fun _ _ => hT _⟩ hP fun _ => hlook
  · cases o with
    | resetReason => exact hreset _
    | root st callPending rootIsCallResult => exact hR.refl _
    | beginGrace exports hasGrace hasStreams =>
      exact core_beginGrace hR t exports hasGrace hasStreams hP fun c => hsend c _ _
    | send msg =>
      change R _ (t.sendFor _ _).2.toCore
      unfold Turn.sendFor
      split
      · exact hsend _ _ _
      · exact hR.refl _
    | _ => exact absurd trivial ho

omit hR in
theorem spends_handle (γ : Type) (o : Op γ) (t : Turn) :
    Core.Spends t.toCore (Turn.handle γ o t).2.toCore :=
  core_handle_all Core.closed_spends (fun _ => trivial) Core.Spends.refl (fun c => .refl c)
    (fun c _ _ => Core.Spends.popSend c) γ o t t.script.passes_any

omit hR in
theorem spends_act (t : Turn) (a : GuestAct) : Core.Spends t.toCore (t.act a).toCore :=
  core_act Core.closed_spends t a ⟨trivial, fun _ _ => trivial⟩ fun _ _ _ _ => trivial

end Turn

end Iso4
