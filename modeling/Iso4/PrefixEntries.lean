/-
The registry's entries of prefixes that are gone (`crates/core/src/engine.rs`, `warm.rs`).

A run that looked its prefix up before a disposal acquires after it, and `acquire` makes an
entry before it knows whether an instance will be pooled under it.  The entry goes with the
last instance released, so one that never had an instance stays.

* `EngineState.Tidy` — the entry of a prefix that is gone has a run to go with;
* `PoolsIfGone` — the acquires that keep it;
* `entries_gone` — in every run made of such acquires no entry outlives its prefix.
-/
import Iso4.PrefixStore
import Iso4.Pressure

namespace Iso4

open Ipc hiding F64

section Entries

set_option linter.unusedSectionVars false

variable {F : Type} [F64 F] {s s' s'' : RegistryInner F}

/-! ### The entries a section leaves -/

/-- No entry is made. -/
def MakesNone (s s' : RegistryInner F) : Prop := ∀ p, p ∈ s'.prefixes → p ∈ s.prefixes

theorem MakesNone.refl (s : RegistryInner F) : MakesNone s s := fun _ hp => hp

theorem MakesNone.trans (h : MakesNone s s') (h' : MakesNone s' s'') : MakesNone s s'' :=
  fun p hp => h p (h' p hp)

theorem makesNone_ite {c : Prop} [Decidable c] {t : RegistryInner F} (hs : MakesNone s s')
    (ht : MakesNone s t) : MakesNone s (if c then s' else t) := by
  split
  · exact hs
  · exact ht

theorem makesNone_putEntry {p : String} (e : PrefixEntry F) (h : p ∈ s.prefixes) :
    MakesNone s (s.putEntry p e) := by
  intro q hq
  rcases (AList.mem_insert s.prefixes).mp hq with rfl | hq
  · exact h
  · exact hq

theorem mem_of_lookup {p : String} {e : PrefixEntry F} (h : s.prefixes.lookup p = some e) :
    p ∈ s.prefixes := AList.lookup_isSome.mp (by rw [h]; rfl)

theorem makesNone_pressurePass (usage : Option Nat) (budget now : Nat) (order : HashOrder F)
    (hids : s.Distinct) : MakesNone s (pressurePass s usage budget now order).1 :=
  (pressurePass_spec s usage budget now order hids).keys

theorem makesNone_noteSlotSample (cfg : WarmConfig) (s : RegistryInner F) (p : Option String)
    (wallMs cpuMs : F) (now : Nat) : MakesNone s (noteSlotSample cfg s p wallMs cpuMs now) := by
  unfold noteSlotSample
  refine makesNone_ite ?_ ?_
  all_goals
    cases p with
    | none => exact fun _ hq => hq
    | some id =>
      dsimp only
      cases he : s.prefixes.lookup id with
      | none => exact fun _ hq => hq
      | some e =>
        exact makesNone_putEntry { e with demand := e.demand.noteCompletion wallMs cpuMs now }
          (mem_of_lookup he)

theorem makesNone_dropIfEmpty (s : RegistryInner F) (p : String) :
    MakesNone s (s.dropIfEmpty p) := by
  unfold RegistryInner.dropIfEmpty
  split
  · exact makesNone_ite (fun q hq => (AList.mem_erase.mp hq).2) (.refl s)
  · exact .refl s

/-- What `dropIfEmpty` leaves under its key has an instance. -/
theorem dropIfEmpty_occupied (s : RegistryInner F) {p : String}
    (h : p ∈ (s.dropIfEmpty p).prefixes) : ∃ f ∈ (s.dropIfEmpty p).records, f.1 = p := by
  unfold RegistryInner.dropIfEmpty at h ⊢
  cases he : s.prefixes.lookup p with
  | none =>
    rw [he] at h
    exact absurd h (AList.lookup_eq_none.mp he)
  | some e =>
    rw [he] at h
    dsimp only at h ⊢
    by_cases hempty : e.instances.isEmpty
    · rw [if_pos hempty] at h
      exact absurd rfl (AList.mem_erase.mp h).1
    · rw [if_neg hempty]
      obtain ⟨i, hi⟩ := List.exists_mem_of_ne_nil e.instances fun hnil => hempty (by rw [hnil]; rfl)
      refine ⟨(p, i), (records_perm_of_lookup he).mem_iff.mpr ?_, rfl⟩
      exact List.mem_append_left _ (List.mem_map_of_mem hi)

theorem makesNone_releaseRecord {p : String} {e : PrefixEntry F} (h : p ∈ s.prefixes) (pos : Nat)
    (i : Instance) (report : RunReport F) (alive : Bool) (now : Nat) :
    MakesNone s (releaseRecord s p e pos i report alive now) := by
  unfold releaseRecord
  dsimp only
  split
  · exact makesNone_ite (makesNone_putEntry _ h) (makesNone_putEntry _ h)
  · exact makesNone_ite (makesNone_putEntry _ h) (makesNone_putEntry _ h)

/-- A release makes no entry, and what it leaves of a prefix that cannot run has an instance. -/
theorem entries_givenBack (cfg : WarmConfig) (report : RunReport F) (alive : Bool) (now : Nat)
    {p : String} {id : Nat} {out : List (String × Nat)} {oneoffs : Nat}
    (h : s.Balanced ((p, id) :: out) oneoffs) :
    MakesNone s (s.givenBack cfg p id report alive now) ∧
      (alive = false → p ∈ (s.givenBack cfg p id report alive now).prefixes →
        ∃ f ∈ (s.givenBack cfg p id report alive now).records, f.1 = p) := by
  obtain ⟨e, pos, i, -, hentry, -, -, heq⟩ := givenBack_eq cfg report alive now h
  have hmem : p ∈ (s.noted cfg p report now).prefixes := by
    by_contra hnot
    exact hentry (AList.lookup_eq_none.mpr hnot)
  have hnoted : MakesNone s (s.noted cfg p report now) :=
    makesNone_ite (makesNone_noteSlotSample cfg s _ _ _ _) (.refl s)
  have hput := hnoted.trans (makesNone_putEntry e hmem)
  have hrec := hput.trans (makesNone_releaseRecord (e := e)
    ((AList.mem_insert _).mpr (.inl rfl)) pos i report alive now)
  rw [heq]
  constructor
  · exact makesNone_ite hrec (hrec.trans (makesNone_dropIfEmpty _ p))
  · rintro rfl hkey
    rw [if_neg Bool.false_ne_true] at hkey ⊢
    exact dropIfEmpty_occupied _ hkey

theorem entries_disposePrefix (s : RegistryInner F) (p : String) :
    MakesNone s (disposePrefix s p) ∧
      (p ∈ (disposePrefix s p).prefixes → ∃ f ∈ (disposePrefix s p).records, f.1 = p) := by
  unfold disposePrefix
  cases he : s.prefixes.lookup p with
  | none => exact ⟨.refl s, fun hkey => absurd hkey (AList.lookup_eq_none.mp he)⟩
  | some e =>
    refine ⟨MakesNone.trans ?_ (makesNone_dropIfEmpty _ p), dropIfEmpty_occupied _⟩
    exact makesNone_putEntry _ (mem_of_lookup he)

theorem makesNone_reserveOneoff (cfg : WarmConfig) (cap : Nat) (r : Reading F) (hids : s.Distinct) :
    MakesNone s (reserveOneoff cfg s cap r).1 := by
  have hpass := makesNone_pressurePass (sampleUsage cfg r.usage) cfg.warmBudgetBytes r.passNow
    r.order hids
  unfold reserveOneoff
  dsimp only
  split
  · exact hpass
  · exact hpass

theorem makesNone_releaseOneoff {cfg : WarmConfig} {tainted : Bool} {wallMs cpuMs : F} {r : Reading F}
    {out : List (String × Nat)} {oneoffs : Nat} (h : s.Balanced out (oneoffs + 1)) :
    MakesNone s (releaseOneoff cfg s tainted wallMs cpuMs r) := by
  rw [releaseOneoff_passes]
  have hback : MakesNone s (s.unreserved cfg tainted wallMs cpuMs r.now) :=
    makesNone_ite (makesNone_noteSlotSample cfg _ none wallMs cpuMs r.now) (.refl _)
  exact hback.trans (makesNone_pressurePass _ _ _ _ (unreserved_balanced h).ids)

theorem makesNone_takeFrom {p : String} {e : PrefixEntry F} (h : p ∈ s.prefixes) (cfg : WarmConfig)
    (caps : HeapCaps) (usage : Option Nat) (admitWarm : Bool) (now : Nat)
    (spawn : Except String Unit) (util : Nat → Nat) :
    MakesNone s (takeFrom cfg s p e caps usage admitWarm now spawn util).1 := by
  unfold takeFrom
  split
  · exact makesNone_putEntry _ h
  · split
    · unfold acquireFirst
      split
      · exact .refl s
      · split
        · exact .refl s
        · split
          · exact .refl s
          · exact makesNone_putEntry _ h
    · unfold acquireJoin
      dsimp only
      split
      · exact makesNone_putEntry _ h
      · split
        · exact .refl s
        · exact makesNone_putEntry _ h

/-- An acquire makes one entry at most, its own. -/
theorem entries_acquire {cfg : WarmConfig} {p : String} {caps : HeapCaps} {r : Reading F}
    {spawn : Except String Unit} {util : Nat → Nat} (hids : s.Distinct) {q : String}
    (hq : q ∈ (acquire cfg s p caps r spawn util).1.prefixes) : q = p ∨ q ∈ s.prefixes := by
  rw [acquire_eq] at hq
  have hown : p ∈ ((acquirePass cfg s r).1.putEntry p (acquireEntry cfg s p caps r)).prefixes :=
    (AList.mem_insert _).mpr (.inl rfl)
  rcases (AList.mem_insert _).mp (makesNone_takeFrom hown cfg caps _ _ _ _ _ q hq) with hq | hq
  · exact .inl hq
  · exact .inr (makesNone_pressurePass _ _ _ _ hids q hq)

/-- With no entry, room under the admission line, a thread and the latch open, the run gets a
pooled instance. -/
theorem acquire_pools {cfg : WarmConfig} {p : String} {caps : HeapCaps} {r : Reading F}
    {spawn : Except String Unit} (util : Nat → Nat) (hids : s.Distinct) (hnone : p ∉ s.prefixes)
    (hroom : (admitRun cfg (sampleUsage cfg r.usage) caps.hardBytes).isOk = true)
    (hspawn : spawn.isOk = true)
    (hlatch : s.latchAfter (sampleUsage cfg r.usage) cfg.warmBudgetBytes = false) :
    ∃ id, (acquire cfg s p caps r spawn util).2 = .attached id := by
  have hpassed := pressurePass_spec s (sampleUsage cfg r.usage) cfg.warmBudgetBytes r.passNow
    r.order hids
  have hopen : (acquirePass cfg s r).2 = true := by
    rw [acquirePass, hpassed.admits, hlatch]
    rfl
  have hempty : (acquireEntry cfg s p caps r).instances = [] := by
    have hgone : (acquirePass cfg s r).1.prefixes.lookup p = none :=
      AList.lookup_eq_none.mpr fun hkey => hnone (hpassed.keys p hkey)
    rw [acquireEntry_instances, RegistryInner.entryOrDefault, hgone]
    rfl
  rw [acquire_eq]
  unfold takeFrom
  have hidle : idlePos (acquireEntry cfg s p caps r).instances caps = none := by
    rw [hempty]
    rfl
  have hjoin : (joinable (acquireEntry cfg s p caps r).instances caps).isEmpty = true := by
    rw [hempty]
    rfl
  rw [hidle]
  dsimp only
  rw [if_pos hjoin, hopen]
  unfold acquireFirst
  cases hrefusal : admitRun cfg (sampleUsage cfg r.usage) caps.hardBytes with
  | error refusal =>
    rw [hrefusal] at hroom
    cases hroom
  | ok room =>
    cases spawn with
    | error error => cases hspawn
    | ok thread => exact ⟨_, rfl⟩

/-! ### The sections -/

/-- The entry of a prefix that is not stored has a run that holds one of its instances. -/
def EngineState.Tidy (e : EngineState F) : Prop :=
  ∀ p, p ∈ e.warm.prefixes → e.prefixes.lookup p = none → ∃ a ∈ e.out, a.1 = p

/-- A run of the prefix is between its lookup and the end of its release hook. -/
def EngineState.InFlight (e : EngineState F) (p : String) : Prop :=
  (∃ run ∈ e.waiting, run.prefixId = p) ∨ ∃ run ∈ e.served, run.prefixId = p

/-- An acquire for a prefix that is gone, entry and all, has room under the admission line,
its thread starts, and the sample leaves the latch open. -/
def PoolsIfGone (cfg : WarmConfig) (e : EngineState F) : EngineOp F → Prop
  | .acquire k r spawn _ =>
    ∀ run, e.waiting[k]? = some run → e.prefixes.lookup run.prefixId = none →
      run.prefixId ∉ e.warm.prefixes →
      (admitRun cfg (sampleUsage cfg r.usage) run.caps.hardBytes).isOk = true ∧
        spawn.isOk = true ∧
        e.warm.latchAfter (sampleUsage cfg r.usage) cfg.warmBudgetBytes = false
  | _ => True

variable {e e' : EngineState F} {cfg : WarmConfig}

theorem tidy_new : (EngineState.new F).Tidy := fun _ hp => absurd hp (AList.notMem_empty _)

/-- A section that makes no entry, ends no pooled run, and takes no prefix out of service. -/
theorem EngineState.Tidy.still (h : e.Tidy) (hmakes : MakesNone e.warm e'.warm)
    (hout : e.out ⊆ e'.out)
    (hgone : ∀ p, e'.prefixes.lookup p = none → e.prefixes.lookup p = none) : e'.Tidy := by
  intro p hp hnone
  obtain ⟨a, ha, hkey⟩ := h p (hmakes p hp) (hgone p hnone)
  exact ⟨a, hout ha, hkey⟩

/-- Records of a prefix that is not stored are held. -/
theorem EngineState.Sound.holder (h : e.Sound) {f : Filed} (hf : f ∈ e.warm.records)
    (hgone : e.prefixes.lookup f.1 = none) : ∃ a ∈ e.out, a.1 = f.1 := by
  refine ⟨(f.1, f.2.id), h.held f.card (mem_cards.mpr ⟨f, hf, rfl⟩) ?_, rfl⟩
  show e.prefixAlive f.1 = false
  unfold EngineState.prefixAlive
  rw [hgone]
  rfl

theorem tidy_dispose {p : String} (hsound : e'.Sound) (h : e.Tidy)
    (hwarm : e'.warm = Iso4.disposePrefix e.warm p) (hserved : e'.served = e.served)
    (hother : ∀ q, q ≠ p → e'.prefixes.lookup q = none → e.prefixes.lookup q = none) :
    e'.Tidy := by
  obtain ⟨hmakes, hoccupied⟩ := entries_disposePrefix e.warm p
  rw [← hwarm] at hmakes hoccupied
  have hout : e'.out = e.out := by
    unfold EngineState.out
    rw [hserved]
  intro q hq hnone
  by_cases hqp : q = p
  · subst hqp
    obtain ⟨f, hf, rfl⟩ := hoccupied hq
    exact hsound.holder hf hnone
  · rw [hout]
    exact h q (hmakes q hq) (hother q hqp hnone)

theorem tidy_acquire (hsound : e.Sound) (h : e.Tidy) (k : Nat) (r : Reading F)
    (spawn : Except String Unit) (util : Nat → Nat)
    (hpools : PoolsIfGone cfg e (.acquire k r spawn util)) : (e.acquire cfg k r spawn util).Tidy := by
  unfold EngineState.acquire
  split
  · next run hrun =>
    intro p hp hnone
    have hnone : e.prefixes.lookup p = none := hnone
    have hkept : (∃ a ∈ e.out, a.1 = p) →
        ∃ a ∈ (servedBy run.prefixId (Iso4.acquire cfg e.warm run.prefixId run.caps r spawn util).2 ++
          e.served).filterMap ServedRun.held, a.1 = p := by
      rintro ⟨a, ha, hkey⟩
      refine ⟨a, ?_, hkey⟩
      rw [List.filterMap_append]
      exact List.mem_append_right _ ha
    by_cases hold : p ∈ e.warm.prefixes
    · exact hkept (h p hold hnone)
    · rcases entries_acquire hsound.books.ids hp with rfl | hold'
      · -- A fresh entry of a prefix that is gone: the run got an instance under it.
        obtain ⟨hroom, hspawn, hlatch⟩ := hpools run hrun hnone hold
        obtain ⟨id, hanswer⟩ := acquire_pools util hsound.books.ids hold hroom hspawn hlatch
        refine ⟨(run.prefixId, id), ?_, rfl⟩
        show _ ∈ List.filterMap ServedRun.held (servedBy run.prefixId
          (Iso4.acquire cfg e.warm run.prefixId run.caps r spawn util).2 ++ e.served)
        rw [hanswer]
        exact List.mem_cons_self
      · exact absurd hold' hold
  · exact h

theorem tidy_release (hsound : e.Sound) (h : e.Tidy) (k : Nat) (report : RunReport F)
    (r : Reading F) : (e.release cfg k report r).Tidy := by
  unfold EngineState.release
  split
  · next run hrun =>
    dsimp only
    obtain ⟨p, taken⟩ := run
    have hsplit := served_split hrun
    cases taken with
    | pooled id =>
      obtain ⟨hbooks, hheld⟩ := held_givenBack hsound hrun cfg report r.now
      have hout : ((p, id) :: (e.served.eraseIdx k).filterMap ServedRun.held).Perm e.out :=
        hsplit.filterMap ServedRun.held
      obtain ⟨hmakes, hoccupied⟩ := entries_givenBack cfg report (e.prefixAlive p) r.now
        (Books.permOut hsound.books hout.symm)
      intro q hq hnone
      have hnone : e.prefixes.lookup q = none := hnone
      have hdead : e.prefixAlive q = false := by
        unfold EngineState.prefixAlive
        rw [hnone]
        rfl
      have hq := makesNone_pressurePass _ _ _ _ hbooks.ids q hq
      show ∃ a ∈ (e.served.eraseIdx k).filterMap ServedRun.held, a.1 = q
      by_cases hqp : q = p
      · -- Its own entry: the last instance would have taken it along.
        subst hqp
        obtain ⟨f, hf, rfl⟩ := hoccupied hdead hq
        exact ⟨(f.1, f.2.id), hheld f.card (mem_cards.mpr ⟨f, hf, rfl⟩) hdead, rfl⟩
      · obtain ⟨a, ha, rfl⟩ := h q (hmakes q hq) hnone
        rcases List.mem_cons.mp (hout.mem_iff.mpr ha) with heq | ha
        · exact absurd (congrArg Prod.fst heq) hqp
        · exact ⟨a, ha, rfl⟩
    | cold =>
      have hout : ((e.served.eraseIdx k).filterMap ServedRun.held).Perm e.out :=
        hsplit.filterMap ServedRun.held
      have hbooks : e.warm.Balanced e.out (e.oneoffs + (e.served.eraseIdx k).countP ServedRun.isCold + 1) := by
        have hcount := hsplit.countP_eq ServedRun.isCold
        rw [List.countP_cons_of_pos rfl] at hcount
        rw [Nat.add_assoc, hcount]
        exact hsound.books
      exact h.still (makesNone_releaseOneoff hbooks) (fun a ha => hout.mem_iff.mpr ha) fun _ hq => hq
  · exact h

theorem tidy_step (hsound : e.Sound) (h : e.Tidy) (op : EngineOp F) (hpools : PoolsIfGone cfg e op) :
    (e.step cfg op).Tidy := by
  have hafter := sound_step cfg e op hsound
  cases op with
  | takeId code filename globals imports =>
    exact h.still (.refl _) (List.Subset.refl _) fun _ hq => hq
  | insertPrefix k =>
    show (e.insertPrefix k).Tidy
    unfold EngineState.insertPrefix
    split
    · next data hk =>
      refine h.still (.refl _) (List.Subset.refl _) fun p hnone => ?_
      have hnot := AList.lookup_eq_none.mp hnone
      exact AList.lookup_eq_none.mpr fun hp => hnot ((AList.mem_insert _).mpr (.inr hp))
    · exact h
  | disposePrefix p =>
    refine tidy_dispose (p := p) hafter h rfl rfl fun q hq hnone => ?_
    rwa [← AList.lookup_erase_ne hq]
  | lookup req =>
    show (e.lookup req).Tidy
    unfold EngineState.lookup
    split
    · split
      · exact h
      · split
        · exact h
        · exact h.still (.refl _) (List.Subset.refl _) fun _ hq => hq
    · exact h
    · exact h
  | acquire k r spawn util => exact tidy_acquire hsound h k r spawn util hpools
  | markBroken k raw =>
    have hafter : (e.markBroken k raw).Sound := hafter
    show (e.markBroken k raw).Tidy
    unfold EngineState.markBroken at hafter ⊢
    split
    · next run hrun =>
      rw [hrun] at hafter
      dsimp only at hafter
      split
      · next data hready =>
        rw [hready] at hafter
        refine tidy_dispose (p := run.prefixId) hafter h rfl rfl fun q hq hnone => ?_
        rwa [← AList.lookup_insert_ne hq]
      · exact h
      · exact h
    · exact h
  | release k report r => exact tidy_release hsound h k report r
  | reserveOneoff runCapBytes r =>
    exact h.still (makesNone_reserveOneoff cfg runCapBytes r hsound.books.ids) (List.Subset.refl _)
      fun _ hq => hq
  | releaseOneoff tainted wallMs cpuMs r =>
    show (e.releaseOneoff cfg tainted wallMs cpuMs r).Tidy
    unfold EngineState.releaseOneoff
    split
    · exact h
    · next hpos =>
      have hbooks : e.warm.Balanced e.out (e.oneoffs - 1 + e.served.countP ServedRun.isCold + 1) := by
        have hreserved : e.oneoffs - 1 + e.served.countP ServedRun.isCold + 1 = e.reserved := by
          unfold EngineState.reserved
          omega
        rw [hreserved]
        exact hsound.books
      exact h.still (makesNone_releaseOneoff hbooks) (List.Subset.refl _) fun _ hq => hq

/-- In every run whose acquires for a prefix that is gone pool an instance: a prefix that is
not stored and has no run in flight has no entry. -/
theorem entries_gone (cfg : WarmConfig) (ops : List (EngineOp F))
    (h : Execution.Along (EngineState.step cfg) (PoolsIfGone cfg) (.new F) ops) :
    let e := Execution.exec (EngineState.step cfg) (.new F) ops
    ∀ p, e.prefixes.lookup p = none → ¬ e.InFlight p → e.warm.prefixes.lookup p = none := by
  intro e p hnone hidle
  have hinv : e.Sound ∧ e.Tidy :=
    Execution.Along.invariant (I := fun e : EngineState F => e.Sound ∧ e.Tidy)
      (fun e op hinv hpools => ⟨sound_step cfg e op hinv.1, tidy_step hinv.1 hinv.2 op hpools⟩)
      ⟨sound_new, tidy_new⟩ h
  refine AList.lookup_eq_none.mpr fun hentry => ?_
  obtain ⟨a, ha, hkey⟩ := hinv.2 p hentry hnone
  -- The entry is there for a run that holds an instance.
  obtain ⟨run, hrun, hheld⟩ := List.mem_filterMap.mp ha
  refine hidle (.inr ⟨run, hrun, ?_⟩)
  unfold ServedRun.held at hheld
  split at hheld
  · obtain rfl := Option.some.inj hheld
    exact hkey
  · cases hheld

/-- A call into the first prefix, with no bindings and no limits. -/
def firstCall : PrefixRunRequest :=
  ⟨1, "0", ⟨0, 0, 0, 0, 0, 0, 0, 0, 0, 0⟩, [], [], ⟨"default", []⟩⟩

/-- A registry with neither line. -/
def noLines : WarmConfig := ⟨0, 0, 0, 1⟩

def noReading (now : Nat) : Reading Float := ⟨none, now, now, .insertion Float⟩

/-- The disposal falls between the lookup and the acquire, and `spawn` is what the thread
creation answers. -/
def disposedBetween (spawn : Except String Unit) : List (EngineOp Float) :=
  [.takeId "export default 1" none [] [], .insertPrefix 0, .lookup firstCall, .disposePrefix "0",
    .acquire 0 (noReading 1) spawn fun _ => 0]

/-- The thread cannot be created: the run is over, the prefix is gone, and the entry stays. -/
theorem entry_outlives_prefix :
    ¬ ∀ (cfg : WarmConfig) (ops : List (EngineOp Float)),
      let e := Execution.exec (EngineState.step cfg) (.new Float) ops
      ∀ p, e.prefixes.lookup p = none → ¬ e.InFlight p → e.warm.prefixes.lookup p = none := by
  intro hall
  have hwaiting : (Execution.exec (EngineState.step noLines) (.new Float)
      (disposedBetween (.error "no thread"))).waiting = [] := rfl
  have hserved : (Execution.exec (EngineState.step noLines) (.new Float)
      (disposedBetween (.error "no thread"))).served = [] := rfl
  have hentry : ((Execution.exec (EngineState.step noLines) (.new Float)
      (disposedBetween (.error "no thread"))).warm.prefixes.lookup "0").isSome = true := rfl
  have hnone := hall noLines (disposedBetween (.error "no thread")) "0" rfl ?_
  · rw [hnone] at hentry
    cases hentry
  · rintro (⟨run, hrun, -⟩ | ⟨run, hrun, -⟩)
    · rw [hwaiting] at hrun
      exact List.not_mem_nil hrun
    · rw [hserved] at hrun
      exact List.not_mem_nil hrun

/-- With a thread the run pools an instance, and its release takes the entry along. -/
theorem entries_gone_sample :
    (Execution.exec (EngineState.step noLines) (.new Float)
      (disposedBetween (.ok ()) ++
        [.release 0 ⟨false, 0, F64.ofNat 1, F64.ofNat 1⟩ (noReading 2)])).warm.prefixes.lookup "0" =
      none := by
  refine entries_gone noLines _ ?_ "0" rfl ?_
  · refine ⟨trivial, trivial, trivial, trivial, fun run hrun _ _ => ⟨rfl, rfl, rfl⟩, trivial, trivial⟩
  · rintro (⟨run, hrun, -⟩ | ⟨run, hrun, -⟩)
    · exact List.not_mem_nil hrun
    · exact List.not_mem_nil hrun

end Entries

end Iso4
