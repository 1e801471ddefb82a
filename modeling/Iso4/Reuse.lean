/-
Reuse of pooled instances (`crates/core/src/warm.rs`).

An acquire opens with a pressure pass, and the pass may drop idle instances of any prefix, the
ones the acquire was about to reuse among them.  The latch is then held, so the run that lost
its instance meets the admission line, and the pool is closed to it.

* `RegistryInner.Match` — a live instance of a prefix with the caps asked for;
* `Ungated` — what the module's "reuse is never gated" asks of an acquire;
* `ungated_iff` — it holds exactly when the pass spares one match.
-/
import Iso4.Shedding

namespace Iso4

section Reuse

set_option linter.unusedSectionVars false

variable {F : Type} [F64 F] {s : RegistryInner F}

/-- A pooled instance that is not dead, with the caps asked for. -/
structure RegistryInner.Match (s : RegistryInner F) (p : String) (caps : HeapCaps) (f : Filed) :
    Prop where
  mem : f ∈ s.records
  key : f.1 = p
  live : f.2.dead = false
  caps : f.2.caps = caps

/-- Reuse is not gated: the run is neither refused nor served by an unpooled isolate, and an
idle match takes it to an instance that was there, whatever a spawn would do. -/
def Ungated (cfg : WarmConfig) (s : RegistryInner F) (p : String) (caps : HeapCaps) (r : Reading F)
    (spawn : Except String Unit) (util : Nat → Nat) : Prop :=
  (∀ message, (acquire cfg s p caps r spawn util).2 ≠ .refused message) ∧
    (acquire cfg s p caps r spawn util).2 ≠ .cold ∧
    ((∃ f, s.Match p caps f ∧ f.2.inFlight = 0) →
      ∃ id, (∃ f ∈ s.records, f.1 = p ∧ f.2.id = id) ∧
        ∀ spawn', (acquire cfg s p caps r spawn' util).2 = .attached id)

/-! ### Matches and the entry -/

theorem mem_records_iff {p : String} {i : Instance} :
    (p, i) ∈ s.records ↔ i ∈ (s.entryOrDefault p).instances := by
  constructor
  · intro hmem
    obtain ⟨e, he, hi⟩ := lookup_of_mem_records hmem
    rw [entryOrDefault_of_lookup he]
    exact hi
  · intro hi
    exact (records_perm s p).mem_iff.mpr (List.mem_append_left _ (List.mem_map_of_mem hi))

theorem RegistryInner.Match.joinable {p : String} {caps : HeapCaps} {f : Filed}
    (h : s.Match p caps f) :
    ∃ pos, (pos, f.2) ∈ joinable (s.entryOrDefault p).instances caps := by
  obtain ⟨q, i⟩ := f
  obtain ⟨hmem, hkey, hlive, hcaps⟩ := h
  obtain rfl : q = p := hkey
  obtain ⟨pos, hpos⟩ := List.getElem?_of_mem (mem_records_iff.mp hmem)
  refine ⟨pos, List.mem_filter.mpr ⟨mem_enumerate.mpr hpos, ?_⟩⟩
  simpa using And.intro hlive hcaps

theorem joinable_ne_nil {p : String} {caps : HeapCaps} :
    joinable (s.entryOrDefault p).instances caps ≠ [] ↔ ∃ f, s.Match p caps f := by
  constructor
  · intro hne
    obtain ⟨⟨pos, i⟩, hmem⟩ := List.exists_mem_of_ne_nil _ hne
    obtain ⟨hat, hi⟩ := List.mem_filter.mp hmem
    simp only [Bool.and_eq_true, Bool.not_eq_true', decide_eq_true_eq] at hi
    have hin : i ∈ (s.entryOrDefault p).instances := List.mem_of_getElem? (mem_enumerate.mp hat)
    exact ⟨(p, i), mem_records_iff.mpr hin, rfl, hi.1, hi.2⟩
  · rintro ⟨f, hf⟩ hnil
    obtain ⟨pos, hjoin⟩ := hf.joinable
    rw [hnil] at hjoin
    exact List.not_mem_nil hjoin

theorem idlePos_ne_none {p : String} {caps : HeapCaps} {f : Filed} (h : s.Match p caps f)
    (hidle : f.2.inFlight = 0) : idlePos (s.entryOrDefault p).instances caps ≠ none := by
  intro hnone
  obtain ⟨pos, hjoin⟩ := h.joinable
  exact (joinable_busy hnone hjoin).2.2 hidle

theorem joinable_of_idlePos {l : List Instance} {caps : HeapCaps} {pos : Nat} {i : Instance}
    (h : idlePos l caps = some (pos, i)) : (pos, i) ∈ joinable l caps := by
  obtain ⟨hmem, hi⟩ := List.mem_filter.mp (maxBy_mem h)
  simp only [Bool.and_eq_true] at hi
  exact List.mem_filter.mpr ⟨hmem, by rw [hi.1.1, hi.2]; rfl⟩

/-! ### The answers -/

/-- The answer is an instance of the pool, or the failure of a spawn. -/
def Acquired.Pooled : Acquired → Prop
  | .attached _ | .spawnFailed _ => True
  | .cold | .refused _ => False

theorem Acquired.Pooled.neither {answer : Acquired} (h : answer.Pooled) :
    (∀ message, answer ≠ .refused message) ∧ answer ≠ .cold := by
  constructor
  · rintro message rfl
    exact h
  · rintro rfl
    exact h

/-- A run with someone to join is neither refused nor served cold. -/
theorem acquireJoin_pooled (cfg : WarmConfig) (s : RegistryInner F) (p : String)
    (e : PrefixEntry F) (caps : HeapCaps) (usage : Option Nat) (admitWarm : Bool) (now : Nat)
    (spawn : Except String Unit) (util : Nat → Nat) :
    (acquireJoin cfg s p e caps usage admitWarm now spawn util).2.Pooled := by
  unfold acquireJoin
  dsimp only
  split
  · exact trivial
  · split
    · exact trivial
    · exact trivial

/-- With the pool closed and nobody to join, no instance is attached. -/
theorem acquireFirst_latched (cfg : WarmConfig) (s : RegistryInner F) (p : String)
    (e : PrefixEntry F) (caps : HeapCaps) (usage : Option Nat) (now : Nat)
    (spawn : Except String Unit) (id : Nat) :
    (acquireFirst cfg s p e caps usage false now spawn).2 ≠ .attached id := by
  unfold acquireFirst
  split
  · exact fun h => nomatch h
  · split
    · exact fun h => nomatch h
    · exact fun h => nomatch h

/-! ### The pass that opens an acquire -/

/-- The instances dropped by the pass that opens an acquire. -/
def acquireVictims (cfg : WarmConfig) (s : RegistryInner F) (r : Reading F) : List Filed :=
  s.passVictims (sampleUsage cfg r.usage) cfg.warmBudgetBytes r.passNow r.order

theorem acquirePass_spec (cfg : WarmConfig) (r : Reading F) (hids : s.Distinct) :
    Passed s (sampleUsage cfg r.usage) cfg.warmBudgetBytes (acquirePass cfg s r)
      (acquireVictims cfg s r) :=
  pressurePass_spec s (sampleUsage cfg r.usage) cfg.warmBudgetBytes r.passNow r.order hids

/-- What the pass left of the matches are those it did not pick. -/
theorem match_acquirePass {cfg : WarmConfig} {r : Reading F} {p : String} {caps : HeapCaps}
    (hids : s.Distinct) (f : Filed) :
    (acquirePass cfg s r).1.Match p caps f ↔ s.Match p caps f ∧ f ∉ acquireVictims cfg s r := by
  have hpassed := acquirePass_spec cfg r hids
  have hmem : f ∈ s.records ↔
      f ∈ acquireVictims cfg s r ∨ f ∈ (acquirePass cfg s r).1.records := by
    rw [hpassed.records.mem_iff, List.mem_append]
  constructor
  · rintro ⟨hf, hkey, hlive, hcaps⟩
    refine ⟨⟨hmem.mpr (.inr hf), hkey, hlive, hcaps⟩, fun hgone => ?_⟩
    -- A victim's id is no longer among the records.
    have hall : ((acquireVictims cfg s r ++ (acquirePass cfg s r).1.records).map
        fun f => f.2.id).Nodup := (hpassed.records.map _).nodup_iff.mp hids
    rw [List.map_append] at hall
    exact (List.nodup_append.mp hall).2.2 f.2.id (List.mem_map_of_mem hgone) f.2.id
      (List.mem_map_of_mem hf) rfl
  · rintro ⟨⟨hf, hkey, hlive, hcaps⟩, hspared⟩
    rcases hmem.mp hf with hgone | hf
    · exact absurd hgone hspared
    · exact ⟨hf, hkey, hlive, hcaps⟩

/-- A pass that picks a victim closes the pool. -/
theorem acquirePass_closed {cfg : WarmConfig} {r : Reading F} (hids : s.Distinct)
    (hne : acquireVictims cfg s r ≠ []) : (acquirePass cfg s r).2 = false := by
  have hpassed := acquirePass_spec cfg r hids
  obtain ⟨-, -, hlatch, -⟩ := hpassed.verdict hne
  rw [hpassed.admits, hlatch]
  rfl

/-! ### When reuse is not gated -/

theorem ungated_of_spared {cfg : WarmConfig} {p : String} {caps : HeapCaps} {r : Reading F}
    (spawn : Except String Unit) (util : Nat → Nat) (hids : s.Distinct)
    (hspared : ∃ f, s.Match p caps f ∧ f ∉ acquireVictims cfg s r) :
    Ungated cfg s p caps r spawn util := by
  have hpassed := acquirePass_spec cfg r hids
  have hmatch : ∃ f, (acquirePass cfg s r).1.Match p caps f := by
    obtain ⟨f, hf⟩ := hspared
    exact ⟨f, (match_acquirePass hids f).mpr hf⟩
  have hjoin : joinable (acquireEntry cfg s p caps r).instances caps ≠ [] :=
    joinable_ne_nil.mpr hmatch
  have hold : ∀ i ∈ (acquireEntry cfg s p caps r).instances, (p, i) ∈ s.records := by
    intro i hi
    exact hpassed.records.mem_iff.mpr (List.mem_append_right _ (mem_records_iff.mpr hi))
  cases hidle : idlePos (acquireEntry cfg s p caps r).instances caps with
  | some found =>
    obtain ⟨pos, i⟩ := found
    have hanswer : ∀ spawn', (acquire cfg s p caps r spawn' util).2 = .attached i.id := by
      intro spawn'
      rw [acquire_eq]
      unfold takeFrom
      rw [hidle]
    have hi := hold i (List.mem_of_getElem? (idlePos_spec hidle).1)
    have hpooled : (acquire cfg s p caps r spawn util).2.Pooled := by
      rw [hanswer spawn]
      exact trivial
    exact ⟨hpooled.neither.1, hpooled.neither.2, fun _ => ⟨i.id, ⟨(p, i), hi, rfl, rfl⟩, hanswer⟩⟩
  | none =>
    have hanswer : ∀ spawn', acquire cfg s p caps r spawn' util =
        acquireJoin cfg ((acquirePass cfg s r).1.putEntry p (acquireEntry cfg s p caps r)) p
          (acquireEntry cfg s p caps r) caps (sampleUsage cfg r.usage) (acquirePass cfg s r).2 r.now
          spawn' util := by
      intro spawn'
      rw [acquire_eq]
      unfold takeFrom
      rw [hidle]
      exact if_neg fun hempty => hjoin (List.isEmpty_iff.mp hempty)
    have hpooled : (acquire cfg s p caps r spawn util).2.Pooled := by
      rw [hanswer spawn]
      exact acquireJoin_pooled _ _ _ _ _ _ _ _ _ _
    refine ⟨hpooled.neither.1, hpooled.neither.2, ?_⟩
    rintro ⟨f, hf, hzero⟩
    -- The idle match is gone, so the pass dropped it and closed the pool.
    have hgone : f ∈ acquireVictims cfg s r := by
      by_contra hkept
      exact idlePos_ne_none ((match_acquirePass hids f).mpr ⟨hf, hkept⟩) hzero hidle
    have hclosed : (acquirePass cfg s r).2 = false :=
      acquirePass_closed hids (List.ne_nil_of_mem hgone)
    obtain ⟨pos, i, hmem, hattach⟩ := acquireJoin_latched cfg
      ((acquirePass cfg s r).1.putEntry p (acquireEntry cfg s p caps r)) p
      (sampleUsage cfg r.usage) r.now util hjoin
    have hi := hold i (List.mem_of_getElem? (joinable_busy hidle hmem).1)
    refine ⟨i.id, ⟨(p, i), hi, rfl, rfl⟩, fun spawn' => ?_⟩
    rw [hanswer spawn', hclosed, hattach spawn']

/-- Every match picked by the pass, the run finds the pool empty and closed. -/
theorem not_ungated_of_dropped {cfg : WarmConfig} {p : String} {caps : HeapCaps} {r : Reading F}
    (spawn : Except String Unit) (util : Nat → Nat) (hids : s.Distinct) {f : Filed}
    (hf : s.Match p caps f) (hall : ∀ f, s.Match p caps f → f ∈ acquireVictims cfg s r) :
    ¬ Ungated cfg s p caps r spawn util := by
  rintro ⟨-, -, hreuse⟩
  have hgone : f ∈ acquireVictims cfg s r := hall f hf
  have hzero : f.2.inFlight = 0 := by
    have hidle := (acquirePass_spec cfg r hids).idle f hgone
    simp only [Instance.isIdle, Bool.and_eq_true, decide_eq_true_eq] at hidle
    exact hidle.1
  obtain ⟨id, -, hanswer⟩ := hreuse ⟨f, hf, hzero⟩
  have hclosed : (acquirePass cfg s r).2 = false :=
    acquirePass_closed hids (List.ne_nil_of_mem hgone)
  have hnone : joinable (acquireEntry cfg s p caps r).instances caps = [] := by
    by_contra hne
    obtain ⟨g, hg⟩ := joinable_ne_nil.mp hne
    obtain ⟨hg, hkept⟩ := (match_acquirePass hids g).mp hg
    exact hkept (hall g hg)
  have hidle : idlePos (acquireEntry cfg s p caps r).instances caps = none := by
    cases hfound : idlePos (acquireEntry cfg s p caps r).instances caps with
    | none => rfl
    | some found =>
      have hmem : (found.1, found.2) ∈ joinable (acquireEntry cfg s p caps r).instances caps :=
        joinable_of_idlePos hfound
      rw [hnone] at hmem
      exact absurd hmem List.not_mem_nil
  have hfirst := hanswer spawn
  rw [acquire_eq] at hfirst
  unfold takeFrom at hfirst
  rw [hidle, hclosed] at hfirst
  dsimp only at hfirst
  rw [if_pos (List.isEmpty_iff.mpr hnone)] at hfirst
  exact acquireFirst_latched _ _ _ _ _ _ _ _ _ hfirst

/-- In every reachable registry, with a match at the entry of the acquire: reuse is not gated
exactly when the pass that opens it does not pick every match. -/
theorem ungated_iff (cfg : WarmConfig) (ops : List (RegistryOp F)) (p : String) (caps : HeapCaps)
    (r : Reading F) (spawn : Except String Unit) (util : Nat → Nat) :
    let s := (Execution.exec (World.step cfg) (.new F) ops).registry
    (∃ f, s.Match p caps f) →
      (Ungated cfg s p caps r spawn util ↔
        ∃ f, s.Match p caps f ∧ f ∉ acquireVictims cfg s r) := by
  intro s hmatch
  have hids : s.Distinct := (registry_books cfg ops).ids
  obtain ⟨f, hf⟩ := hmatch
  constructor
  · intro hungated
    by_contra hnone
    refine not_ungated_of_dropped spawn util hids hf (fun g hg => ?_) hungated
    by_contra hkept
    exact hnone ⟨g, hg, hkept⟩
  · exact ungated_of_spared spawn util hids

/-- A run takes an instance and gives it back: one idle instance is left. -/
def oneIdle : List (RegistryOp Float) :=
  [.acquire "p" ⟨0, 0⟩ ⟨none, 0, 0, .insertion Float⟩ (.ok ()) fun _ => 0,
    .release 0 ⟨false, 0, F64.ofNat 1, F64.ofNat 1⟩ true ⟨none, 1, 1, .insertion Float⟩]

/-- The sample at the next acquire. -/
def overBudget : Reading Float := ⟨some 120, 2, 2, .insertion Float⟩

theorem oneIdle_match :
    ∃ f, (Execution.exec (World.step ⟨100, 0, 0, 1⟩) (.new Float) oneIdle).registry.Match "p" ⟨0, 0⟩ f := by
  refine ⟨("p", ⟨1, ⟨1, 0⟩, 0, ⟨0, 0⟩, 0, false⟩), ?_, rfl, rfl, rfl⟩
  exact List.mem_of_getElem? (i := 0) rfl

/-- Reuse is gated where the sample that opens the acquire reaches the budget: the one idle
instance goes, and the run is refused. -/
theorem reuse_refused :
    ¬ ∀ (cfg : WarmConfig) (ops : List (RegistryOp Float)) (p : String) (caps : HeapCaps)
      (r : Reading Float) (spawn : Except String Unit) (util : Nat → Nat),
      let s := (Execution.exec (World.step cfg) (.new Float) ops).registry
      (∃ f, s.Match p caps f) → Ungated cfg s p caps r spawn util := by
  intro hall
  have hungated := hall ⟨100, 0, 0, 1⟩ oneIdle "p" ⟨0, 0⟩ overBudget (.ok ()) (fun _ => 0) oneIdle_match
  exact hungated.1 _ rfl

/-- Below the budget the idle instance is reused. -/
theorem ungated_iff_below : Ungated ⟨100, 0, 0, 1⟩
    (Execution.exec (World.step ⟨100, 0, 0, 1⟩) (.new Float) oneIdle).registry "p" ⟨0, 0⟩
    ⟨some 50, 2, 2, .insertion Float⟩ (.ok ()) (fun _ => 0) := by
  refine (ungated_iff ⟨100, 0, 0, 1⟩ oneIdle "p" ⟨0, 0⟩ ⟨some 50, 2, 2, .insertion Float⟩ (.ok ())
    (fun _ => 0) oneIdle_match).mpr ?_
  obtain ⟨f, hf⟩ := oneIdle_match
  exact ⟨f, hf, List.not_mem_nil⟩

end Reuse

end Iso4
