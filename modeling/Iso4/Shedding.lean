/-
The shedding latch over whole runs (`crates/core/src/warm.rs`).

A gauge is a registry with the pressure passes it has made, oldest first.  The source keeps a
flag and the sample of the last pass; the passes are what the two stand for.

* `Crossed` — the latch as the samples tell it;
* `GaugeStep`, `gaugeStep_step` — what one call does to latch and passes;
* `pressure_latch` — latch, victims, futility check and admission stop in every run.
-/
import Iso4.Pressure

namespace Iso4

/-! ### The latch, told by the samples -/

/-- Some sample reached the budget, and since then none was missing, or at or below four
fifths of it. -/
def Crossed (budget : Nat) (samples : List (Option Nat)) : Prop :=
  ∃ before usageBytes since, samples = before ++ some usageBytes :: since ∧ budget ≤ usageBytes ∧
    ∀ x ∈ since, ∃ u, x = some u ∧ budget / 5 * 4 < u

theorem not_crossed_nil (budget : Nat) : ¬ Crossed budget [] := by
  rintro ⟨before, usageBytes, since, hsplit, -, -⟩
  exact List.cons_ne_nil _ _ (List.append_eq_nil_iff.mp hsplit.symm).2

theorem crossed_concat {budget : Nat} {samples : List (Option Nat)} {x : Option Nat} :
    Crossed budget (samples ++ [x]) ↔
      ∃ u, x = some u ∧ (budget ≤ u ∨ (Crossed budget samples ∧ budget / 5 * 4 < u)) := by
  constructor
  · rintro ⟨before, usageBytes, since, hsplit, hreach, hsince⟩
    rcases List.eq_nil_or_concat since with rfl | ⟨since, y, rfl⟩
    · obtain ⟨-, hx⟩ := List.append_inj' hsplit rfl
      exact ⟨usageBytes, List.singleton_inj.mp hx, .inl hreach⟩
    · rw [List.concat_eq_append, ← List.cons_append, ← List.append_assoc] at hsplit
      obtain ⟨hsamples, hx⟩ := List.append_inj' hsplit rfl
      obtain rfl := List.singleton_inj.mp hx
      rw [List.concat_eq_append] at hsince
      obtain ⟨u, hu, hlt⟩ := hsince x (List.mem_append_right _ List.mem_cons_self)
      exact ⟨u, hu, .inr ⟨⟨before, usageBytes, since, hsamples, hreach, fun y hy =>
        hsince y (List.mem_append_left _ hy)⟩, hlt⟩⟩
  · rintro ⟨u, rfl, hreach | ⟨⟨before, usageBytes, since, rfl, hreach, hsince⟩, hlt⟩⟩
    · exact ⟨samples, u, [], rfl, hreach, fun y hy => absurd hy List.not_mem_nil⟩
    · refine ⟨before, usageBytes, since ++ [some u], by simp, hreach, fun y hy => ?_⟩
      rcases List.mem_append.mp hy with hy | hy
      · exact hsince y hy
      · obtain rfl := List.mem_singleton.mp hy
        exact ⟨u, rfl, hlt⟩

section Gauges

set_option linter.unusedSectionVars false

variable {F : Type} [F64 F]

/-! ### The passes of a run -/

/-- One pressure pass: its sample, where it starts and what it leaves. -/
structure Pass (F : Type) where
  usage : Option Nat
  start : RegistryInner F
  finish : RegistryInner F

def Pass.of (cfg : WarmConfig) (s : RegistryInner F) (r : Reading F) : Pass F :=
  ⟨sampleUsage cfg r.usage, s, (acquirePass cfg s r).1⟩

/-- The pass dropped an instance. -/
def Pass.Evicts (pass : Pass F) : Prop := pass.finish.records.length < pass.start.records.length

/-- The pass a call makes.  A disposal makes none. -/
def World.passes (cfg : WarmConfig) (w : World F) : RegistryOp F → List (Pass F)
  | .acquire _ _ r _ _ => [.of cfg w.registry r]
  | .release k report alive r =>
    match w.out[k]? with
    | some (p, id) => [.of cfg (w.registry.givenBack cfg p id report alive r.now) r]
    | none => []
  | .reserveOneoff _ r => [.of cfg w.registry r]
  | .releaseOneoff tainted wallMs cpuMs r =>
    if w.oneoffs = 0 then []
    else [.of cfg (w.registry.unreserved cfg tainted wallMs cpuMs r.now) r]
  | .disposePrefix _ => []

structure Gauge (F : Type) where
  world : World F
  passes : List (Pass F)

def Gauge.new (F : Type) [F64 F] : Gauge F := ⟨.new F, []⟩

def Gauge.step (cfg : WarmConfig) (g : Gauge F) (op : RegistryOp F) : Gauge F :=
  ⟨g.world.step cfg op, g.passes ++ g.world.passes cfg op⟩

/-- What a call does to the latch and the passes: nothing, or one pass from a registry with
the same latch. -/
inductive GaugeStep (cfg : WarmConfig) (g g' : Gauge F) : Prop where
  | still (hpasses : g'.passes = g.passes) (hlatch : SameLatch g.world.registry g'.world.registry)
      (hadds : AddsNone g.world.registry g'.world.registry)
  | passed (start : RegistryInner F) (r : Reading F) (out : List (String × Nat)) (oneoffs : Nat)
      (hstart : start.Balanced out oneoffs) (hlatch : SameLatch g.world.registry start)
      (hpasses : g'.passes = g.passes ++ [.of cfg start r])
      (hafter : SameLatch (acquirePass cfg start r).1 g'.world.registry)
      (hadds : (acquirePass cfg start r).2 = false →
        AddsNone g.world.registry g'.world.registry)

theorem gaugeStep_step (cfg : WarmConfig) (g : Gauge F) (op : RegistryOp F)
    (h : g.world.registry.Balanced g.world.out g.world.oneoffs) :
    GaugeStep cfg g (g.step cfg op) := by
  have hstill : g.world.step cfg op = g.world → g.world.passes cfg op = [] →
      GaugeStep cfg g (g.step cfg op) := by
    intro hworld hpasses
    refine .still ?_ ?_ ?_
    · show g.passes ++ g.world.passes cfg op = g.passes
      rw [hpasses, List.append_nil]
    · show SameLatch g.world.registry (g.world.step cfg op).registry
      rw [hworld]
      exact .refl _
    · show AddsNone g.world.registry (g.world.step cfg op).registry
      rw [hworld]
      exact (Thins.refl _).addsNone
  cases op with
  | acquire p caps r spawn util =>
    have hafter : (g.world.step cfg (.acquire p caps r spawn util)).registry =
        (takeFrom cfg ((acquirePass cfg g.world.registry r).1.putEntry p
          (acquireEntry cfg g.world.registry p caps r)) p (acquireEntry cfg g.world.registry p caps r)
          caps (sampleUsage cfg r.usage) (acquirePass cfg g.world.registry r).2 r.now spawn util).1 := rfl
    refine .passed g.world.registry r _ _ h (.refl _) rfl ?_ ?_
    · show SameLatch _ (g.world.step cfg (.acquire p caps r spawn util)).registry
      have hput : SameLatch (acquirePass cfg g.world.registry r).1
          ((acquirePass cfg g.world.registry r).1.putEntry p
            (acquireEntry cfg g.world.registry p caps r)) := ⟨rfl, rfl⟩
      rw [hafter]
      exact hput.trans (sameLatch_takeFrom _ _ _ _ _ _ _ _ _ _)
    · intro hclosed
      show AddsNone _ (g.world.step cfg (.acquire p caps r spawn util)).registry
      rw [hafter, hclosed]
      have hpass : Thins g.world.registry (acquirePass cfg g.world.registry r).1 :=
        thins_pressurePass _ _ _ _ _
      have hput : Thins (acquirePass cfg g.world.registry r).1
          ((acquirePass cfg g.world.registry r).1.putEntry p
            (acquireEntry cfg g.world.registry p caps r)) := Thins.putDemand rfl
      exact ((hpass.trans hput).trans (thins_takeFrom caps _ _ _ _)).addsNone
  | release k report alive r =>
    cases hk : g.world.out[k]? with
    | none => exact hstill (by simp only [World.step, hk]) (by simp only [World.passes, hk])
    | some a =>
      obtain ⟨p, id⟩ := a
      obtain ⟨hlt, hat⟩ := List.getElem?_eq_some_iff.mp hk
      have hheld : g.world.registry.Balanced ((p, id) :: g.world.out.eraseIdx k) g.world.oneoffs := by
        rw [← hat]
        exact Books.permOut h (List.getElem_cons_eraseIdx_perm hlt).symm
      have hregistry : (g.world.step cfg (.release k report alive r)).registry =
          (acquirePass cfg (g.world.registry.givenBack cfg p id report alive r.now) r).1 := by
        simp only [World.step, hk]
        exact release_passes cfg g.world.registry p id report alive r
      refine .passed (g.world.registry.givenBack cfg p id report alive r.now) r _ _
        (givenBack_balanced hheld) (sameLatch_givenBack cfg _ p id report alive r.now) ?_ ?_ ?_
      · show g.passes ++ g.world.passes cfg (.release k report alive r) = _
        simp only [World.passes, hk]
      · show SameLatch _ (g.world.step cfg (.release k report alive r)).registry
        rw [hregistry]
        exact .refl _
      · intro _
        show AddsNone _ (g.world.step cfg (.release k report alive r)).registry
        rw [hregistry]
        exact ((releases_givenBack hheld).thins (thins_pressurePass _ _ _ _ _)).addsNone
  | reserveOneoff cap r =>
    have hregistry : SameLatch (acquirePass cfg g.world.registry r).1
        (g.world.step cfg (.reserveOneoff cap r)).registry := by
      show SameLatch _ (reserveOneoff cfg g.world.registry cap r).1
      unfold reserveOneoff
      dsimp only
      split
      · exact .refl _
      · exact ⟨rfl, rfl⟩
    exact .passed g.world.registry r _ _ h (.refl _) rfl hregistry
      fun _ => (thins_reserveOneoff cfg g.world.registry cap r).addsNone
  | releaseOneoff tainted wallMs cpuMs r =>
    by_cases hzero : g.world.oneoffs = 0
    · exact hstill (by simp only [World.step, if_pos hzero])
        (by simp only [World.passes, if_pos hzero])
    · obtain ⟨n, hn⟩ := Nat.exists_eq_succ_of_ne_zero hzero
      have hregistry : (g.world.step cfg (.releaseOneoff tainted wallMs cpuMs r)).registry =
          (acquirePass cfg (g.world.registry.unreserved cfg tainted wallMs cpuMs r.now) r).1 := by
        simp only [World.step, if_neg hzero]
        exact releaseOneoff_passes cfg g.world.registry tainted wallMs cpuMs r
      rw [hn] at h
      refine .passed (g.world.registry.unreserved cfg tainted wallMs cpuMs r.now) r _ _
        (unreserved_balanced h) (sameLatch_unreserved cfg _ tainted wallMs cpuMs r.now) ?_ ?_ ?_
      · show g.passes ++ g.world.passes cfg (.releaseOneoff tainted wallMs cpuMs r) = _
        simp only [World.passes, if_neg hzero]
      · show SameLatch _ (g.world.step cfg (.releaseOneoff tainted wallMs cpuMs r)).registry
        rw [hregistry]
        exact .refl _
      · intro _
        show AddsNone _ (g.world.step cfg (.releaseOneoff tainted wallMs cpuMs r)).registry
        rw [hregistry]
        exact ((thins_unreserved cfg _ tainted wallMs cpuMs r.now).trans
          (thins_pressurePass _ _ _ _ _)).addsNone
  | disposePrefix p =>
    exact .still (List.append_nil _) (sameLatch_disposePrefix _ p) (addsNone_disposePrefix _ p)

/-! ### What every run keeps -/

/-- At most a tenth of the idle instances goes, or one, and every one of them is idle. -/
def Pass.Sheds (pass : Pass F) : Prop :=
  ∃ gone, pass.start.records.Perm (gone ++ pass.finish.records) ∧
    (∀ f ∈ gone, f.2.inFlight = 0 ∧ f.2.dead = false) ∧
    gone.length ≤ max 1 ((pass.start.records.countP fun f => f.2.isIdle) / 10)

/-- Two passes that drop, with none that does between them and the latch held throughout,
act on samples more than a twentieth of the earlier one apart. -/
def Moved (passes : List (Pass F)) : Prop :=
  ∀ before a between b after, passes = before ++ a :: between ++ b :: after →
    a.Evicts → b.Evicts → (∀ pass ∈ between, ¬ pass.Evicts ∧ pass.finish.shedding = true) →
    ∃ u v, a.usage = some u ∧ b.usage = some v ∧ u < 20 * absDiff v u

/-- While the latch is held the registry remembers the sample of the last pass that dropped. -/
def Armed (passes : List (Pass F)) (lastPass : Option PassOutcome) : Prop :=
  ∀ before a between, passes = before ++ a :: between → a.Evicts →
    (∀ pass ∈ between, ¬ pass.Evicts ∧ pass.finish.shedding = true) →
    ∃ u, a.usage = some u ∧ lastPass = some ⟨u⟩

structure Gauge.Steady (cfg : WarmConfig) (g : Gauge F) : Prop where
  books : g.world.registry.Balanced g.world.out g.world.oneoffs
  latch : g.world.registry.shedding = true ↔
    Crossed cfg.warmBudgetBytes (g.passes.map Pass.usage)
  armed : Armed g.passes g.world.registry.lastPass
  sheds : ∀ pass ∈ g.passes, pass.Sheds
  moved : Moved g.passes

variable {cfg : WarmConfig} {g g' : Gauge F}

theorem latchAfter_iff {s : RegistryInner F} {usage : Option Nat} {budget : Nat}
    (hbudget : budget ≠ 0) :
    s.latchAfter usage budget = true ↔
      ∃ u, usage = some u ∧ (budget ≤ u ∨ (s.shedding = true ∧ budget / 5 * 4 < u)) := by
  cases usage with
  | none => simp [RegistryInner.latchAfter]
  | some u =>
    have hverdict : (watermarkAction (s.pressureFacts u budget)).shedding = true ↔
        budget ≤ u ∨ (s.shedding = true ∧ budget / 5 * 4 < u) :=
      watermarkAction_shedding (s.pressureFacts u budget) hbudget
    simpa [RegistryInner.latchAfter] using hverdict

theorem steady_new : (Gauge.new F).Steady cfg where
  books := new_balanced
  latch := by
    constructor
    · intro hheld
      cases hheld
    · intro hcrossed
      exact absurd hcrossed (not_crossed_nil _)
  armed before a between hsplit := absurd (congrArg List.length hsplit) (by simp [Gauge.new])
  sheds _ hpass := absurd hpass List.not_mem_nil
  moved before a between b after hsplit :=
    absurd (congrArg List.length hsplit) (by simp [Gauge.new])

/-- A pass with its victims. -/
theorem pass_spec (cfg : WarmConfig) (r : Reading F) {s : RegistryInner F}
    {out : List (String × Nat)} {oneoffs : Nat} (h : s.Balanced out oneoffs) :
    ∃ gone, Passed s (sampleUsage cfg r.usage) cfg.warmBudgetBytes (acquirePass cfg s r) gone ∧
      ((Pass.of cfg s r).Evicts ↔ gone ≠ []) := by
  have hpassed := pressurePass_spec s (sampleUsage cfg r.usage) cfg.warmBudgetBytes r.passNow
    r.order h.ids
  refine ⟨_, hpassed, ?_⟩
  generalize s.passVictims (sampleUsage cfg r.usage) cfg.warmBudgetBytes r.passNow r.order = gone
    at hpassed ⊢
  have hlen : s.records.length = gone.length + (acquirePass cfg s r).1.records.length :=
    hpassed.records.length_eq.trans List.length_append
  show (acquirePass cfg s r).1.records.length < s.records.length ↔ gone ≠ []
  rw [hlen, ← List.length_pos_iff]
  omega

theorem sheds_of {s : RegistryInner F} {out : List (String × Nat)} {oneoffs : Nat}
    (h : s.Balanced out oneoffs) (r : Reading F) : (Pass.of cfg s r).Sheds := by
  obtain ⟨gone, hpassed, -⟩ := pass_spec cfg r h
  refine ⟨gone, hpassed.records, fun f hf => ?_, ?_⟩
  · simpa [Instance.isIdle] using hpassed.idle f hf
  · by_cases hnil : gone = []
    · rw [hnil]
      exact Nat.zero_le _
    · obtain ⟨-, -, -, hle, -⟩ := hpassed.verdict hnil
      have hidle : s.idleTotal = s.records.countP fun f => f.2.isIdle := Books.idle h
      rw [hidle, shedTarget, max_comm] at hle
      exact hle

theorem Armed.concat {passes : List (Pass F)} {lastPass : Option PassOutcome} (h : Armed passes lastPass)
    (r : Reading F) {s : RegistryInner F} {out : List (String × Nat)} {oneoffs : Nat}
    (hs : s.Balanced out oneoffs) (hlast : s.lastPass = lastPass) :
    Armed (passes ++ [.of cfg s r]) (acquirePass cfg s r).1.lastPass := by
  obtain ⟨gone, hpassed, hevicts⟩ := pass_spec cfg r hs
  intro before a between hsplit ha hbetween
  rcases List.eq_nil_or_concat between with rfl | ⟨between, b, rfl⟩
  · obtain ⟨-, hone⟩ := List.append_inj' hsplit rfl
    obtain rfl := List.singleton_inj.mp hone
    obtain ⟨u, hu, -, -, hset, -⟩ := hpassed.verdict (hevicts.mp ha)
    exact ⟨u, hu, hset⟩
  · rw [List.concat_eq_append, ← List.cons_append, ← List.append_assoc] at hsplit
    obtain ⟨hpasses, hone⟩ := List.append_inj' hsplit rfl
    obtain rfl := List.singleton_inj.mp hone
    rw [List.concat_eq_append] at hbetween
    obtain ⟨u, hu, hkept⟩ := h before a between hpasses ha fun pass hpass =>
      hbetween pass (List.mem_append_left _ hpass)
    obtain ⟨hstill, hheld⟩ := hbetween _ (List.mem_append_right _ List.mem_cons_self)
    have hnil : gone = [] := by
      by_contra hne
      exact hstill (hevicts.mpr hne)
    have hlatch : s.latchAfter (sampleUsage cfg r.usage) cfg.warmBudgetBytes = true :=
      hpassed.latch.symm.trans hheld
    exact ⟨u, hu, by rw [hpassed.still hnil hlatch, hlast, hkept]⟩

theorem Moved.concat {passes : List (Pass F)} {lastPass : Option PassOutcome}
    (h : Moved passes) (harmed : Armed passes lastPass) (r : Reading F) {s : RegistryInner F}
    {out : List (String × Nat)} {oneoffs : Nat} (hs : s.Balanced out oneoffs)
    (hlast : s.lastPass = lastPass) : Moved (passes ++ [.of cfg s r]) := by
  obtain ⟨gone, hpassed, hevicts⟩ := pass_spec cfg r hs
  intro before a between b after hsplit ha hb hbetween
  rcases List.eq_nil_or_concat after with rfl | ⟨after, c, rfl⟩
  · -- The later of the two is the new pass.
    obtain ⟨hpasses, hone⟩ := List.append_inj' hsplit rfl
    obtain rfl := List.singleton_inj.mp hone
    obtain ⟨u, hu, hkept⟩ := harmed before a between hpasses ha hbetween
    obtain ⟨v, hv, -, -, -, hfar⟩ := hpassed.verdict (hevicts.mp hb)
    have hfar := hfar ⟨u⟩ (hlast.trans hkept)
    refine ⟨u, v, hu, hv, ?_⟩
    dsimp only at hfar
    omega
  · have hregroup : before ++ a :: between ++ b :: after.concat c =
        (before ++ a :: between ++ b :: after) ++ [c] := by simp
    rw [hregroup] at hsplit
    obtain ⟨hpasses, -⟩ := List.append_inj' hsplit rfl
    exact h before a between b after hpasses ha hb hbetween

theorem Gauge.Steady.step (hbudget : cfg.warmBudgetBytes ≠ 0) (h : g.Steady cfg) (op : RegistryOp F) :
    (g.step cfg op).Steady cfg := by
  have hbooks := step_balanced cfg g.world op h.books
  cases gaugeStep_step cfg g op h.books with
  | still hpasses hlatch hadds =>
    refine ⟨hbooks, ?_, ?_, ?_, ?_⟩
    · rw [hpasses, hlatch.shedding]
      exact h.latch
    · rw [hpasses, hlatch.lastPass]
      exact h.armed
    · rw [hpasses]
      exact h.sheds
    · rw [hpasses]
      exact h.moved
  | passed start r out oneoffs hstart hlatch hpasses hafter hadds =>
    refine ⟨hbooks, ?_, ?_, ?_, ?_⟩
    · obtain ⟨gone, hpassed, -⟩ := pass_spec cfg r hstart
      have husage : (Pass.of cfg start r).usage = sampleUsage cfg r.usage := rfl
      rw [hpasses, hafter.shedding, hpassed.latch, latchAfter_iff hbudget, List.map_append,
        List.map_singleton, crossed_concat, hlatch.shedding, h.latch, husage]
    · rw [hpasses, hafter.lastPass]
      exact h.armed.concat r hstart hlatch.lastPass
    · intro pass hpass
      rw [hpasses] at hpass
      rcases List.mem_append.mp hpass with hpass | hpass
      · exact h.sheds pass hpass
      · obtain rfl := List.mem_singleton.mp hpass
        exact sheds_of hstart r
    · rw [hpasses]
      exact h.moved.concat h.armed r hstart hlatch.lastPass

/-- After a call that leaves the latch held, no instance is new. -/
theorem addsNone_held (h : g.Steady cfg) (op : RegistryOp F)
    (hheld : (g.step cfg op).world.registry.shedding = true) :
    AddsNone g.world.registry (g.step cfg op).world.registry := by
  cases gaugeStep_step cfg g op h.books with
  | still hpasses hlatch hadds => exact hadds
  | passed start r out oneoffs hstart hlatch hpasses hafter hadds =>
    obtain ⟨gone, hpassed, -⟩ := pass_spec cfg r hstart
    rw [hafter.shedding, hpassed.latch] at hheld
    exact hadds (by rw [hpassed.admits, hheld]; rfl)

/-- In every run under a nonzero budget: the latch is held exactly when the samples crossed the
budget and have not come back, a pass drops a tenth of the idle instances at most, two passes
that drop under one latch act on samples that have moved, and nothing is pooled while the latch
is held. -/
theorem pressure_latch (cfg : WarmConfig) (hbudget : cfg.warmBudgetBytes ≠ 0)
    (ops : List (RegistryOp F)) :
    let g := Execution.exec (Gauge.step cfg) (.new F) ops
    (g.world.registry.shedding = true ↔ Crossed cfg.warmBudgetBytes (g.passes.map Pass.usage)) ∧
      (∀ pass ∈ g.passes, pass.Sheds) ∧ Moved g.passes ∧
      ∀ op, (g.step cfg op).world.registry.shedding = true →
        AddsNone g.world.registry (g.step cfg op).world.registry := by
  intro g
  have hsteady : g.Steady cfg :=
    Execution.exec_invariant (fun g op h => h.step hbudget op) steady_new ops
  exact ⟨hsteady.latch, hsteady.sheds, hsteady.moved, fun op => addsNone_held hsteady op⟩

/-- One reservation over the budget. -/
theorem pressure_latch_reserve : Crossed 100 [some 120] :=
  (pressure_latch (F := Float) ⟨100, 0, 0, 1⟩ (by decide)
    [.reserveOneoff 0 ⟨some 120, 0, 0, .insertion Float⟩]).1.mp rfl

end Gauges

end Iso4
