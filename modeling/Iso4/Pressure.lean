/-
The pressure pass over whole runs (`crates/core/src/warm.rs`, `policy.rs`).

Every acquire, release, reservation and end of a one-off folds one usage sample into the
shedding latch and may drop idle instances.

* `Drops`, `pressurePass_spec` — one pass: what goes, and what becomes of the latch;
* `Gauge` — the registry with the passes it has made;
* `pressure_latch` — the latch, the victims, the futility check and the admission stop over
  every sequence of operations.
-/
import Iso4.Retirement

namespace Iso4

/-! ### The verdict -/

theorem watermarkAction_shedding (facts : PressureFacts) (h : facts.budgetBytes ≠ 0) :
    (watermarkAction facts).shedding = true ↔
      facts.budgetBytes ≤ facts.usageBytes ∨
        (facts.wasShedding = true ∧ facts.budgetBytes / 5 * 4 < facts.usageBytes) := by
  have hshedding : (watermarkAction facts).shedding =
      (decide (facts.usageBytes ≥ facts.budgetBytes) ||
        (facts.wasShedding && decide (facts.usageBytes > facts.budgetBytes / 5 * 4))) := by
    unfold watermarkAction
    rw [if_neg h]
    dsimp only
    split
    · rfl
    · split
      · split
        · rfl
        · rfl
      · rfl
  rw [hshedding]
  simp

/-- A verdict that evicts: the latch is held, the number is a tenth of the idle ones, and the
sample has moved since the last pass. -/
theorem watermarkAction_evict (facts : PressureFacts) (h : 0 < (watermarkAction facts).evict) :
    (watermarkAction facts).shedding = true ∧
      (watermarkAction facts).evict = shedTarget facts.idleCount ∧
      ∀ last, facts.lastPass = some last →
        last.usageAtPass / 20 < absDiff facts.usageBytes last.usageAtPass := by
  revert h
  unfold watermarkAction
  split
  · intro h
    exact absurd h (Nat.lt_irrefl 0)
  · dsimp only
    split
    · intro h
      exact absurd h (Nat.lt_irrefl 0)
    · next hshedding =>
      have hheld : (decide (facts.usageBytes ≥ facts.budgetBytes) ||
          (facts.wasShedding && decide (facts.usageBytes > facts.budgetBytes / 5 * 4))) = true := by
        cases hb : (decide (facts.usageBytes ≥ facts.budgetBytes) ||
          (facts.wasShedding && decide (facts.usageBytes > facts.budgetBytes / 5 * 4))) with
        | true => rfl
        | false => simp [hb] at hshedding
      split
      · next last hlast =>
        split
        · intro h
          exact absurd h (Nat.lt_irrefl 0)
        · next hmoved =>
          intro _
          refine ⟨hheld, rfl, fun last' hlast' => ?_⟩
          rw [hlast] at hlast'
          obtain rfl := Option.some.inj hlast'
          omega
      · next hlast =>
        intro _
        refine ⟨hheld, rfl, fun last' hlast' => ?_⟩
        rw [hlast] at hlast'
        cases hlast'

section Passes

set_option linter.unusedSectionVars false

variable {F : Type} [F64 F] {s s' s'' : RegistryInner F}

/-! ### One pass -/

/-- The facts a sample is folded with. -/
def RegistryInner.pressureFacts (s : RegistryInner F) (usageBytes budget : Nat) : PressureFacts :=
  { usageBytes, budgetBytes := budget, wasShedding := s.shedding, lastPass := s.lastPass,
    idleCount := s.idleTotal }

/-- The latch once the sample is folded in. -/
def RegistryInner.latchAfter (s : RegistryInner F) (usage : Option Nat) (budget : Nat) : Bool :=
  match usage with
  | none => false
  | some usageBytes => (watermarkAction (s.pressureFacts usageBytes budget)).shedding

/-- `gone` are dropped, all of them idle; nothing is added and no entry either. -/
structure Drops (s s' : RegistryInner F) (gone : List Filed) : Prop where
  records : s.records.Perm (gone ++ s'.records)
  idle : ∀ f ∈ gone, f.2.isIdle = true
  keys : ∀ p, p ∈ s'.prefixes → p ∈ s.prefixes
  latch : s'.shedding = s.shedding
  lastPass : s'.lastPass = s.lastPass

theorem Drops.refl (s : RegistryInner F) : Drops s s [] :=
  ⟨.refl _, fun _ hf => absurd hf List.not_mem_nil, fun _ hp => hp, rfl, rfl⟩

theorem Drops.trans {gone gone' : List Filed} (h : Drops s s' gone) (h' : Drops s' s'' gone') :
    Drops s s'' (gone ++ gone') where
  records := by
    rw [List.append_assoc]
    exact h.records.trans (h'.records.append_left gone)
  idle f hf := by
    rcases List.mem_append.mp hf with hf | hf
    · exact h.idle f hf
    · exact h'.idle f hf
  keys p hp := h.keys p (h'.keys p hp)
  latch := h'.latch.trans h.latch
  lastPass := h'.lastPass.trans h.lastPass

/-- The ids of the records are distinct. -/
def RegistryInner.Distinct (s : RegistryInner F) : Prop := (s.records.map fun f => f.2.id).Nodup

theorem Drops.distinct {gone : List Filed} (h : Drops s s' gone) (hids : s.Distinct) :
    s'.Distinct := by
  have hall : ((gone ++ s'.records).map fun f => f.2.id).Nodup :=
    (h.records.map _).nodup_iff.mp hids
  rw [List.map_append] at hall
  exact (List.nodup_append.mp hall).2.1

/-- The instance `evictScored` picks. -/
def RegistryInner.victim (s : RegistryInner F) (now : Nat) (order : HashOrder F) : Option Filed :=
  (pickVictim F ((s.idleLocations order).map fun l =>
    ⟨l.2.handle.heapUsedBytes, l.2.handle.lastUsed⟩) now).bind fun k => (s.idleLocations order)[k]?

/-- The instances `shed` picks, one after the other. -/
def victims (now : Nat) (order : HashOrder F) : Nat → RegistryInner F → List Filed
  | 0, _ => []
  | n + 1, s =>
    match s.victim now order with
    | none => []
    | some f => f :: victims now order n (evictScored s now order).1

theorem drops_evictScored (now : Nat) (order : HashOrder F) (hids : s.Distinct) :
    Drops s (evictScored s now order).1 (s.victim now order).toList ∧
      (evictScored s now order).2 = (s.victim now order).isSome := by
  unfold evictScored RegistryInner.victim
  dsimp only
  cases hpick : pickVictim F ((s.idleLocations order).map fun l =>
      (⟨l.2.handle.heapUsedBytes, l.2.handle.lastUsed⟩ : VictimFact)) now with
  | none => exact ⟨Drops.refl s, rfl⟩
  | some k =>
    cases hloc : (s.idleLocations order)[k]? with
    | none =>
      simp only [Option.bind_some, hloc]
      exact ⟨Drops.refl s, rfl⟩
    | some f =>
      obtain ⟨p, i⟩ := f
      obtain ⟨e, he, hmem, hidle⟩ := mem_idleLocations (List.mem_of_getElem? hloc)
      simp only [Option.bind_some, hloc, he]
      have hopen := records_perm_of_lookup he
      have hnodup : (e.instances.map Instance.id).Nodup := by
        have hall := (hopen.map fun f : Filed => f.2.id).nodup_iff.mp hids
        rw [List.map_append, List.map_map] at hall
        exact (List.nodup_append.mp hall).1
      have hfront := ((perm_filter_id hnodup hmem).map (Prod.mk p)).append_right (s.others p)
      refine ⟨⟨hopen.trans hfront, ?_, ?_, rfl, rfl⟩, rfl⟩
      · intro f hf
        obtain rfl := List.mem_singleton.mp hf
        exact hidle
      · intro q hq
        rcases (AList.mem_insert s.prefixes).mp hq with rfl | hq
        · exact AList.lookup_isSome.mp (by rw [he]; rfl)
        · exact hq

theorem drops_shed (now : Nat) (order : HashOrder F) (n : Nat) (hids : s.Distinct) :
    Drops s (shed now order n s).1 (victims now order n s) ∧
      (victims now order n s).length = (shed now order n s).2 ∧
      (victims now order n s).length ≤ n := by
  induction n generalizing s with
  | zero => exact ⟨Drops.refl s, rfl, Nat.le_refl 0⟩
  | succ n ih =>
    obtain ⟨hone, hflag⟩ := drops_evictScored now order hids
    unfold shed victims
    cases hvictim : s.victim now order with
    | none =>
      rw [hvictim] at hone hflag
      generalize evictScored s now order = answer at hone hflag
      obtain ⟨s', flag⟩ := answer
      obtain rfl : flag = false := hflag
      exact ⟨hone, rfl, Nat.zero_le _⟩
    | some f =>
      rw [hvictim] at hone hflag
      generalize evictScored s now order = answer at hone hflag ⊢
      obtain ⟨s', flag⟩ := answer
      obtain rfl : flag = true := hflag
      obtain ⟨hrest, hcount, hle⟩ := ih (hone.distinct hids)
      refine ⟨hone.trans hrest, ?_, ?_⟩
      · show (victims now order n s').length + 1 = _
        rw [hcount]
      · show (victims now order n s').length + 1 ≤ n + 1
        exact Nat.succ_le_succ hle

/-- The state a pass leaves: idle records go, and the latch and the last pass follow the sample. -/
structure Passed (s : RegistryInner F) (usage : Option Nat) (budget : Nat)
    (answer : RegistryInner F × Bool) (gone : List Filed) : Prop where
  records : s.records.Perm (gone ++ answer.1.records)
  idle : ∀ f ∈ gone, f.2.isIdle = true
  keys : ∀ p, p ∈ answer.1.prefixes → p ∈ s.prefixes
  latch : answer.1.shedding = s.latchAfter usage budget
  admits : answer.2 = !s.latchAfter usage budget
  /-- A pass that drops follows the sample it acts on. -/
  verdict : gone ≠ [] → ∃ usageBytes, usage = some usageBytes ∧
    s.latchAfter usage budget = true ∧ gone.length ≤ shedTarget s.idleTotal ∧
    answer.1.lastPass = some ⟨usageBytes⟩ ∧
    ∀ last, s.lastPass = some last → last.usageAtPass / 20 < absDiff usageBytes last.usageAtPass
  /-- A pass that drops nothing keeps the sample of the last one while the latch is held. -/
  still : gone = [] → s.latchAfter usage budget = true → answer.1.lastPass = s.lastPass

/-- The instances a pass picks. -/
def RegistryInner.passVictims (s : RegistryInner F) (usage : Option Nat) (budget now : Nat)
    (order : HashOrder F) : List Filed :=
  match usage with
  | none => []
  | some usageBytes =>
    let verdict := watermarkAction (s.pressureFacts usageBytes budget)
    victims now order verdict.evict
      { s with
        shedding := verdict.shedding
        lastPass := if verdict.shedding then s.lastPass else none }

theorem pressurePass_spec (s : RegistryInner F) (usage : Option Nat) (budget now : Nat)
    (order : HashOrder F) (hids : s.Distinct) :
    Passed s usage budget (pressurePass s usage budget now order)
      (s.passVictims usage budget now order) := by
  unfold pressurePass RegistryInner.passVictims
  cases usage with
  | none =>
    refine ⟨.refl _, fun _ hf => absurd hf List.not_mem_nil, fun _ hp => hp, rfl, rfl, ?_, ?_⟩
    · intro hne
      exact absurd rfl hne
    · intro _ hlatch
      cases hlatch
  | some usageBytes =>
    have hfacts : watermarkAction
        { usageBytes, budgetBytes := budget, wasShedding := s.shedding, lastPass := s.lastPass,
          idleCount := s.idleTotal } = watermarkAction (s.pressureFacts usageBytes budget) := rfl
    dsimp only
    rw [hfacts]
    have hlatch : s.latchAfter (some usageBytes) budget =
        (watermarkAction (s.pressureFacts usageBytes budget)).shedding := rfl
    have hevict := watermarkAction_evict (s.pressureFacts usageBytes budget)
    generalize watermarkAction (s.pressureFacts usageBytes budget) = verdict at hlatch hevict ⊢
    have hlatched : RegistryInner.Distinct
        { s with
          shedding := verdict.shedding
          lastPass := if verdict.shedding then s.lastPass else none } := hids
    obtain ⟨hdrops, hcount, hle⟩ := drops_shed now order verdict.evict hlatched
    generalize victims now order verdict.evict _ = gone at hdrops hcount hle ⊢
    generalize shed now order verdict.evict _ = left at hdrops hcount ⊢
    obtain ⟨after, dropped⟩ := left
    have hcount : gone.length = dropped := hcount
    by_cases hdropped : dropped > 0
    · rw [if_pos hdropped]
      refine ⟨hdrops.records, hdrops.idle, hdrops.keys, hdrops.latch.trans hlatch.symm,
        by rw [hlatch], ?_, ?_⟩
      · intro _
        obtain ⟨hheld, htarget, hmoved⟩ := hevict (by omega)
        exact ⟨usageBytes, rfl, hlatch.trans hheld, htarget ▸ hle, rfl, hmoved⟩
      · intro hnil
        rw [hnil] at hcount
        exact absurd hdropped (by rw [← hcount]; exact Nat.lt_irrefl 0)
    · rw [if_neg hdropped]
      refine ⟨hdrops.records, hdrops.idle, hdrops.keys, hdrops.latch.trans hlatch.symm,
        by rw [hlatch], ?_, ?_⟩
      · intro hne
        have := List.length_pos_iff.mpr hne
        omega
      · intro _ hheld
        have hlast : after.lastPass = if verdict.shedding then s.lastPass else none := hdrops.lastPass
        rw [hlatch] at hheld
        rw [hlast, if_pos hheld]

/-! ### What acquire does after its pass -/

/-- `acquire` once the pass is made and the entry is written back. -/
def takeFrom (cfg : WarmConfig) (s : RegistryInner F) (prefixId : String) (entry : PrefixEntry F)
    (caps : HeapCaps) (usage : Option Nat) (admitWarm : Bool) (now : Nat)
    (spawn : Except String Unit) (util : Nat → Nat) : RegistryInner F × Acquired :=
  match idlePos entry.instances caps with
  | some (pos, inst) =>
    ((s.attachAt prefixId entry pos inst 1).subIdle 1, .attached inst.id)
  | none =>
    if (joinable entry.instances caps).isEmpty then
      acquireFirst cfg s prefixId entry caps usage admitWarm now spawn
    else acquireJoin cfg s prefixId entry caps usage admitWarm now spawn util

/-- The pass that opens an acquire. -/
def acquirePass (cfg : WarmConfig) (s : RegistryInner F) (r : Reading F) : RegistryInner F × Bool :=
  pressurePass s (sampleUsage cfg r.usage) cfg.warmBudgetBytes r.passNow r.order

/-- The entry with the arrival noted and the heap average seeded. -/
def PrefixEntry.arrived (entry : PrefixEntry F) (caps : HeapCaps) (now : Nat) : PrefixEntry F :=
  let demand := entry.demand.noteArrival now
  { entry with demand :=
      if !demand.heapBytes.seeded && decide (caps.hardBytes > 0) then
        { demand with heapBytes := demand.heapBytes.update (F64.ofNat caps.hardBytes) }
      else demand }

/-- The entry an acquire decides on. -/
def acquireEntry (cfg : WarmConfig) (s : RegistryInner F) (p : String) (caps : HeapCaps)
    (r : Reading F) : PrefixEntry F :=
  ((acquirePass cfg s r).1.entryOrDefault p).arrived caps r.now

theorem acquire_eq (cfg : WarmConfig) (s : RegistryInner F) (p : String) (caps : HeapCaps)
    (r : Reading F) (spawn : Except String Unit) (util : Nat → Nat) :
    acquire cfg s p caps r spawn util =
      takeFrom cfg ((acquirePass cfg s r).1.putEntry p (acquireEntry cfg s p caps r)) p
        (acquireEntry cfg s p caps r) caps (sampleUsage cfg r.usage) (acquirePass cfg s r).2 r.now
        spawn util := rfl

theorem acquireEntry_instances (cfg : WarmConfig) (s : RegistryInner F) (p : String)
    (caps : HeapCaps) (r : Reading F) :
    (acquireEntry cfg s p caps r).instances =
      ((acquirePass cfg s r).1.entryOrDefault p).instances := rfl

/-- While the latch is held a run with someone to join joins, and nothing is spawned. -/
theorem acquireJoin_latched (cfg : WarmConfig) (s : RegistryInner F) (p : String)
    {e : PrefixEntry F} {caps : HeapCaps} (usage : Option Nat) (now : Nat) (util : Nat → Nat)
    (hjoin : joinable e.instances caps ≠ []) :
    ∃ pos inst, (pos, inst) ∈ joinable e.instances caps ∧
      ∀ spawn, acquireJoin cfg s p e caps usage false now spawn util =
        (s.attachAt p e pos inst (inst.inFlight + 1), .attached inst.id) := by
  unfold acquireJoin
  dsimp only
  generalize hfacts : (joinable e.instances caps).map
    (fun p => (⟨p.2.inFlight, util p.2.id⟩ : JoinFact)) = facts
  have hlen : facts.length = (joinable e.instances caps).length := by
    rw [← hfacts, List.length_map]
  have hne : facts ≠ [] := by
    intro hnil
    rw [hnil, List.length_nil] at hlen
    exact hjoin (List.length_eq_zero_iff.mp hlen.symm)
  -- Without room to spawn the choice is the target, or the fallback.
  have hpick : ∃ k, k < facts.length ∧
      ((pickJoinTarget facts).orElse fun _ => joinFallback facts) = some k := by
    cases htarget : pickJoinTarget facts with
    | some k => exact ⟨k, pickJoinTarget_lt htarget, rfl⟩
    | none =>
      obtain ⟨k, hk⟩ := Option.isSome_iff_exists.mp (joinFallback_isSome hne)
      exact ⟨k, joinFallback_lt hk, hk⟩
  obtain ⟨k, hlt, hk⟩ := hpick
  have hlt : k < (joinable e.instances caps).length := by omega
  have hat : (joinable e.instances caps)[k]? = some (joinable e.instances caps)[k] :=
    List.getElem?_eq_getElem hlt
  refine ⟨(joinable e.instances caps)[k].1, (joinable e.instances caps)[k].2,
    List.getElem_mem hlt, fun spawn => ?_⟩
  simp only [Bool.false_and, Bool.and_false, Bool.false_eq_true, if_false, hk, Option.bind_some, hat]

/-! ### Steps that leave the latch alone -/

structure SameLatch (s s' : RegistryInner F) : Prop where
  shedding : s'.shedding = s.shedding
  lastPass : s'.lastPass = s.lastPass

theorem SameLatch.refl (s : RegistryInner F) : SameLatch s s := ⟨rfl, rfl⟩

theorem SameLatch.trans (h : SameLatch s s') (h' : SameLatch s' s'') : SameLatch s s'' :=
  ⟨h'.shedding.trans h.shedding, h'.lastPass.trans h.lastPass⟩

theorem sameLatch_ite {c : Prop} [Decidable c] {t : RegistryInner F} (hs : SameLatch s s')
    (ht : SameLatch s t) : SameLatch s (if c then s' else t) := by
  split
  · exact hs
  · exact ht

theorem sameLatch_dropIfEmpty (s : RegistryInner F) (p : String) :
    SameLatch s (s.dropIfEmpty p) := by
  unfold RegistryInner.dropIfEmpty
  split
  · exact sameLatch_ite ⟨rfl, rfl⟩ (.refl s)
  · exact .refl s

theorem sameLatch_noteSlotSample (cfg : WarmConfig) (s : RegistryInner F) (p : Option String)
    (wallMs cpuMs : F) (now : Nat) : SameLatch s (noteSlotSample cfg s p wallMs cpuMs now) := by
  unfold noteSlotSample
  refine sameLatch_ite ?_ ?_
  all_goals
    cases p with
    | none => exact ⟨rfl, rfl⟩
    | some id =>
      dsimp only
      cases s.prefixes.lookup id with
      | none => exact ⟨rfl, rfl⟩
      | some e => exact ⟨rfl, rfl⟩

theorem sameLatch_releaseRecord (s : RegistryInner F) (p : String) (e : PrefixEntry F) (pos : Nat)
    (i : Instance) (report : RunReport F) (alive : Bool) (now : Nat) :
    SameLatch s (releaseRecord s p e pos i report alive now) := by
  unfold releaseRecord
  dsimp only
  split
  · exact sameLatch_ite ⟨rfl, rfl⟩ ⟨rfl, rfl⟩
  · exact sameLatch_ite ⟨rfl, rfl⟩ ⟨rfl, rfl⟩

theorem sameLatch_givenBack (cfg : WarmConfig) (s : RegistryInner F) (p : String) (id : Nat)
    (report : RunReport F) (alive : Bool) (now : Nat) :
    SameLatch s (s.givenBack cfg p id report alive now) := by
  have hnoted : SameLatch s (s.noted cfg p report now) :=
    sameLatch_ite (sameLatch_noteSlotSample cfg s _ _ _ _) (.refl s)
  unfold RegistryInner.givenBack
  dsimp only
  refine hnoted.trans ?_
  split
  · exact .refl _
  · next e he =>
    have hput : SameLatch (s.noted cfg p report now)
        ((s.noted cfg p report now).putEntry p (e.noteRelease report)) := ⟨rfl, rfl⟩
    refine sameLatch_ite (hput.trans ?_) ((hput.trans ?_).trans (sameLatch_dropIfEmpty _ _))
    all_goals
      split
      · exact .refl _
      · split
        · exact .refl _
        · exact sameLatch_releaseRecord _ _ _ _ _ _ _ _

theorem sameLatch_unreserved (cfg : WarmConfig) (s : RegistryInner F) (tainted : Bool)
    (wallMs cpuMs : F) (now : Nat) : SameLatch s (s.unreserved cfg tainted wallMs cpuMs now) := by
  have hback : SameLatch s ((s.subTotal 1).subOneoff 1) := ⟨rfl, rfl⟩
  exact hback.trans (sameLatch_ite (sameLatch_noteSlotSample cfg _ none wallMs cpuMs now) (.refl _))

theorem sameLatch_disposePrefix (s : RegistryInner F) (p : String) :
    SameLatch s (disposePrefix s p) := by
  unfold disposePrefix
  split
  · exact .refl s
  · refine SameLatch.trans ?_ (sameLatch_dropIfEmpty _ p)
    exact ⟨rfl, rfl⟩

theorem sameLatch_takeFrom (cfg : WarmConfig) (s : RegistryInner F) (p : String) (e : PrefixEntry F)
    (caps : HeapCaps) (usage : Option Nat) (admitWarm : Bool) (now : Nat)
    (spawn : Except String Unit) (util : Nat → Nat) :
    SameLatch s (takeFrom cfg s p e caps usage admitWarm now spawn util).1 := by
  unfold takeFrom
  split
  · exact ⟨rfl, rfl⟩
  · split
    · unfold acquireFirst
      split
      · exact .refl s
      · split
        · exact .refl s
        · split
          · exact ⟨rfl, rfl⟩
          · exact ⟨rfl, rfl⟩
    · unfold acquireJoin
      dsimp only
      split
      · exact ⟨rfl, rfl⟩
      · split
        · exact .refl s
        · exact ⟨rfl, rfl⟩

/-! ### Steps that add no instance -/

/-- Every record was there before, and no id was given out. -/
structure AddsNone (s s' : RegistryInner F) : Prop where
  next : s'.nextInstanceId = s.nextInstanceId
  records : ∀ f ∈ s'.records, ∃ g ∈ s.records, g.1 = f.1 ∧ g.2.id = f.2.id

theorem Thins.addsNone (h : Thins s s') : AddsNone s s' where
  next := h.next
  records f hf := by
    obtain ⟨g, hg, hcard⟩ := mem_cards.mp (h.cards (mem_cards.mpr ⟨f, hf, rfl⟩))
    exact ⟨g, hg, congrArg Card.prefixId hcard, congrArg Card.id hcard⟩

theorem Releases.addsNone {p : String} {id : Nat} {report : RunReport F} {alive : Bool}
    (h : Releases s s' p id report alive) : AddsNone s s' where
  next := h.1
  records f hf := by
    rcases h.2 f.card (mem_cards.mpr ⟨f, hf, rfl⟩) with ⟨hold, -⟩ | ⟨i, hi, hid, hcard⟩
    · obtain ⟨g, hg, hcard⟩ := mem_cards.mp hold
      exact ⟨g, hg, congrArg Card.prefixId hcard, congrArg Card.id hcard⟩
    · obtain ⟨g, hg, hcard'⟩ := mem_cards.mp hi
      refine ⟨g, hg, ?_, ?_⟩
      · exact (congrArg Card.prefixId hcard').trans (congrArg Card.prefixId hcard).symm
      · have hkept : (i.released report alive).id = i.id := (released_facts i report alive).1
        have hf : f.2.id = (i.released report alive).id := congrArg Card.id hcard
        have hg : g.2.id = i.id := congrArg Card.id hcard'
        rw [hf, hkept, hg]

theorem addsNone_disposePrefix (s : RegistryInner F) (p : String) :
    AddsNone s (disposePrefix s p) where
  next := next_disposePrefix s p
  records f hf := by
    rcases cards_disposePrefix (mem_cards.mpr ⟨f, hf, rfl⟩) with ⟨hold, -⟩ | ⟨i, hi, hcard⟩
    · obtain ⟨g, hg, hcard⟩ := mem_cards.mp hold
      exact ⟨g, hg, congrArg Card.prefixId hcard, congrArg Card.id hcard⟩
    · obtain ⟨g, hg, hcard'⟩ := mem_cards.mp hi
      refine ⟨g, hg, ?_, ?_⟩
      · exact (congrArg Card.prefixId hcard').trans (congrArg Card.prefixId hcard).symm
      · exact (congrArg Card.id hcard').trans (congrArg Card.id hcard).symm

/-- Without warm admission nothing is pooled. -/
theorem thins_takeFrom {cfg : WarmConfig} {p : String} {e : PrefixEntry F} (caps : HeapCaps)
    (usage : Option Nat) (now : Nat) (spawn : Except String Unit) (util : Nat → Nat) :
    Thins (s.putEntry p e) (takeFrom cfg (s.putEntry p e) p e caps usage false now spawn util).1 := by
  unfold takeFrom
  split
  · next pos i hidle =>
    obtain ⟨hi, hlive, -⟩ := idlePos_spec hidle
    obtain ⟨hthin, -⟩ := admits_attachAt (s := s) (p := p) (n := 1) hi hlive
    exact hthin.trans (Thins.of_records rfl rfl)
  · next hidle =>
    split
    · unfold acquireFirst
      split
      · exact Thins.refl _
      · split
        · exact Thins.refl _
        · exact Thins.of_records rfl rfl
    · next hjoin =>
      obtain ⟨pos, i, hmem, heq⟩ := acquireJoin_latched cfg (s.putEntry p e) p usage now
        util fun hnil => hjoin (List.isEmpty_iff.mpr hnil)
      obtain ⟨hi, hlive, -⟩ := joinable_busy hidle hmem
      rw [heq]
      exact (admits_attachAt hi hlive).1

end Passes

end Iso4
