/-
The prefix store over the warm registry (`crates/core/src/engine.rs`).

Two maps under two locks: the store knows which prefixes can run, the registry holds their
instances.  A prefix run takes the store lock to look its prefix up, the registry lock to
acquire, and at its end the store lock twice, over the registry's: once to mark the prefix
broken if its cold start failed, once to give its instance back.  Every operation here is
one such critical section; a run between two of them is in one of the lists.

* `EngineState.step` — the critical sections;
* `EngineState.Sound` — the books of the registry, and who holds the instances of a
  prefix that cannot run;
* `sound_step` — every section keeps it.
-/
import Iso4.PrefixRebinds
import Iso4.Retirement
import Mathlib

namespace Iso4

open Ipc hiding F64

/-! ### What the store keeps -/

structure PrefixData where
  id : Nat
  code : String
  filename : Option String
  globals : List HostGlobalDef
  declaredGlobals : List String
  declaredImports : List ImportBinding

/-- `PrefixEntry` of `prefix.rs`. -/
inductive StoredPrefix where
  | ready (data : PrefixData)
  | broken (cause : RunErrorPayload)

def StoredPrefix.isReady : StoredPrefix → Bool
  | .ready _ => true
  | .broken _ => false

/-- The failure kept for the lifetime of a prefix. -/
def brokenCause (raw : RunErrorPayload) : RunErrorPayload :=
  { raw with
    message := clampErrorText raw.message
    stack := raw.stack.map clampErrorText
    fields := none }

/-- A run past its lookup. -/
structure WaitingRun where
  prefixId : String
  caps : HeapCaps

/-- What serves a run: an instance of the pool, or one of its own. -/
inductive Taken where
  | pooled (instanceId : Nat)
  | cold

structure ServedRun where
  prefixId : String
  taken : Taken

/-- The attachment a run holds. -/
def ServedRun.held (r : ServedRun) : Option (String × Nat) :=
  match r.taken with
  | .pooled id => some (r.prefixId, id)
  | .cold => none

def ServedRun.isCold (r : ServedRun) : Bool :=
  match r.taken with
  | .pooled _ => false
  | .cold => true

structure EngineState (F : Type) where
  prefixes : AList fun _ : String => StoredPrefix
  nextPrefixId : Nat
  /-- Prefixes with an id, not stored yet. -/
  preparing : List PrefixData
  warm : RegistryInner F
  waiting : List WaitingRun
  served : List ServedRun
  /-- One-off runs that hold a reservation. -/
  oneoffs : Nat

section Engine

set_option linter.unusedSectionVars false

variable {F : Type} [F64 F]

def EngineState.new (F : Type) [F64 F] : EngineState F := ⟨∅, 0, [], .new F, [], [], 0⟩

/-! ### The critical sections -/

/-- `prepare`: the id is taken. -/
def EngineState.takeId (e : EngineState F) (code : String) (filename : Option String)
    (globals : List HostGlobalDef) (imports : List ImportBinding) : EngineState F :=
  { e with
    nextPrefixId := e.nextPrefixId + 1
    preparing := e.preparing ++
      [⟨e.nextPrefixId, code, filename, globals, globals.filterMap HostGlobalDef.bridgeStubName, imports⟩] }

/-- `prepare`: the prefix is stored under its id. -/
def EngineState.insertPrefix (e : EngineState F) (k : Nat) : EngineState F :=
  match e.preparing[k]? with
  | some data =>
    { e with
      prefixes := e.prefixes.insert (toString data.id) (.ready data)
      preparing := e.preparing.eraseIdx k }
  | none => e

/-- `dispose_prefix`, under both locks. -/
def EngineState.disposePrefix (e : EngineState F) (prefixId : String) : EngineState F :=
  { e with
    prefixes := e.prefixes.erase prefixId
    warm := Iso4.disposePrefix e.warm prefixId }

/-- One mebibyte times a limit. -/
def heapCaps (limits : ResourceLimits) : HeapCaps :=
  ⟨limits.softMemoryMb * 1024 * 1024, limits.hardMemoryMb * 1024 * 1024⟩

/-- `prefix_run`: the lookup, and the checks on what it found.  A refused run is over. -/
def EngineState.lookup (e : EngineState F) (req : PrefixRunRequest) : EngineState F :=
  match e.prefixes.lookup req.prefixId with
  | some (.ready data) =>
    match validateGlobalRebinds req.globals data.declaredGlobals data.globals with
    | .error _ => e
    | .ok () =>
      match validateImportRebinds req.importRebinds data.declaredImports with
      | .error _ => e
      | .ok () => { e with waiting := e.waiting ++ [⟨req.prefixId, heapCaps req.limits⟩] }
  | some (.broken _) => e
  | none => e

/-- The run that got `answer`. -/
def servedBy (prefixId : String) : Acquired → List ServedRun
  | .attached id => [⟨prefixId, .pooled id⟩]
  | .cold => [⟨prefixId, .cold⟩]
  | .refused _ => []
  | .spawnFailed _ => []

/-- `prefix_run`: the `k`-th waiting run acquires. -/
def EngineState.acquire (cfg : WarmConfig) (e : EngineState F) (k : Nat) (r : Reading F)
    (spawn : Except String Unit) (util : Nat → Nat) : EngineState F :=
  match e.waiting[k]? with
  | some run =>
    let answered := Iso4.acquire cfg e.warm run.prefixId run.caps r spawn util
    { e with
      warm := answered.1
      waiting := e.waiting.eraseIdx k
      served := servedBy run.prefixId answered.2 ++ e.served }
  | none => e

/-- The release hook of a run whose prefix failed: the store entry, if it is still ready,
becomes broken and the healthy instances go. -/
def EngineState.markBroken (e : EngineState F) (k : Nat) (raw : RunErrorPayload) : EngineState F :=
  match e.served[k]? with
  | some run =>
    match e.prefixes.lookup run.prefixId with
    | some (.ready _) =>
      { e with
        prefixes := e.prefixes.insert run.prefixId (.broken (brokenCause raw))
        warm := Iso4.disposePrefix e.warm run.prefixId }
    | some (.broken _) => e
    | none => e
  | none => e

/-- `matches!(store.get(&prefix_id), Some(PrefixEntry::Ready(_)))`. -/
def EngineState.prefixAlive (e : EngineState F) (prefixId : String) : Bool :=
  ((e.prefixes.lookup prefixId).map StoredPrefix.isReady).getD false

/-- The release hook: the instance goes back, or the one-off slot of a cold one. -/
def EngineState.release (cfg : WarmConfig) (e : EngineState F) (k : Nat) (report : RunReport F)
    (r : Reading F) : EngineState F :=
  match e.served[k]? with
  | some run =>
    let served := e.served.eraseIdx k
    match run.taken with
    | .pooled id =>
      { e with
        warm := Iso4.release cfg e.warm run.prefixId id report (e.prefixAlive run.prefixId) r
        served }
    | .cold =>
      { e with
        warm := Iso4.releaseOneoff cfg e.warm report.tainted report.wallTimeMs report.cpuTimeMs r
        served }
  | none => e

/-- `run`: a one-off run reserves. -/
def EngineState.reserveOneoff (cfg : WarmConfig) (e : EngineState F) (runCapBytes : Nat)
    (r : Reading F) : EngineState F :=
  let answered := Iso4.reserveOneoff cfg e.warm runCapBytes r
  { e with warm := answered.1, oneoffs := if answered.2.isOk then e.oneoffs + 1 else e.oneoffs }

/-- A one-off run is over. -/
def EngineState.releaseOneoff (cfg : WarmConfig) (e : EngineState F) (tainted : Bool)
    (wallMs cpuMs : F) (r : Reading F) : EngineState F :=
  if e.oneoffs = 0 then e
  else
    { e with
      warm := Iso4.releaseOneoff cfg e.warm tainted wallMs cpuMs r
      oneoffs := e.oneoffs - 1 }

inductive EngineOp (F : Type) where
  | takeId (code : String) (filename : Option String) (globals : List HostGlobalDef)
    (imports : List ImportBinding)
  | insertPrefix (k : Nat)
  | disposePrefix (prefixId : String)
  | lookup (req : PrefixRunRequest)
  | acquire (k : Nat) (r : Reading F) (spawn : Except String Unit) (util : Nat → Nat)
  | markBroken (k : Nat) (raw : RunErrorPayload)
  | release (k : Nat) (report : RunReport F) (r : Reading F)
  | reserveOneoff (runCapBytes : Nat) (r : Reading F)
  | releaseOneoff (tainted : Bool) (wallMs cpuMs : F) (r : Reading F)

def EngineState.step (cfg : WarmConfig) (e : EngineState F) : EngineOp F → EngineState F
  | .takeId code filename globals imports => e.takeId code filename globals imports
  | .insertPrefix k => e.insertPrefix k
  | .disposePrefix prefixId => e.disposePrefix prefixId
  | .lookup req => e.lookup req
  | .acquire k r spawn util => e.acquire cfg k r spawn util
  | .markBroken k raw => e.markBroken k raw
  | .release k report r => e.release cfg k report r
  | .reserveOneoff runCapBytes r => e.reserveOneoff cfg runCapBytes r
  | .releaseOneoff tainted wallMs cpuMs r => e.releaseOneoff cfg tainted wallMs cpuMs r

/-! ### The books and the prefixes that cannot run -/

def EngineState.out (e : EngineState F) : List (String × Nat) := e.served.filterMap ServedRun.held

/-- The one-off slots taken. -/
def EngineState.reserved (e : EngineState F) : Nat := e.oneoffs + e.served.countP ServedRun.isCold

/-- The registry balances, and an instance of a prefix that cannot run is held by a run. -/
structure EngineState.Sound (e : EngineState F) : Prop where
  books : e.warm.Balanced e.out e.reserved
  held : ∀ c ∈ e.warm.cards, e.prefixAlive c.prefixId = false → (c.prefixId, c.id) ∈ e.out

variable {e : EngineState F} {cfg : WarmConfig}

theorem Books.card_held {recs : List Filed} {total oneoffRunning idleTotal next oneoffs : Nat}
    {saturated : Bool} {out : List (String × Nat)}
    (h : Books recs total oneoffRunning idleTotal next saturated out oneoffs) {f : Filed}
    (hf : f ∈ recs) : f.2.inFlight ≠ 0 ↔ (f.1, f.2.id) ∈ out := by
  rw [h.inFlight f hf, ← List.count_pos_iff]
  omega

/-- A dead card is held. -/
theorem dead_held {s : RegistryInner F} {out : List (String × Nat)} {oneoffs : Nat}
    (h : s.Balanced out oneoffs) {c : Card} (hc : c ∈ s.cards) (hdead : c.dead = true) :
    (c.prefixId, c.id) ∈ out := by
  obtain ⟨f, hf, rfl⟩ := mem_cards.mp hc
  exact (Books.card_held h hf).mp (Nat.ne_of_gt (h.dead f hf hdead))

theorem served_split {k : Nat} {run : ServedRun} (h : e.served[k]? = some run) :
    (run :: e.served.eraseIdx k).Perm e.served := by
  obtain ⟨hlt, rfl⟩ := List.getElem?_eq_some_iff.mp h
  exact List.getElem_cons_eraseIdx_perm hlt

theorem sound_new : (EngineState.new F).Sound where
  books := new_balanced
  held c hc := by cases hc

/-- A section that leaves the registry and the runs alone, and takes no prefix out of service. -/
theorem EngineState.Sound.still {e' : EngineState F} (h : e.Sound) (hwarm : e'.warm = e.warm)
    (hserved : e'.served = e.served) (honeoffs : e'.oneoffs = e.oneoffs)
    (halive : ∀ p, e'.prefixAlive p = false → e.prefixAlive p = false) : e'.Sound where
  books := by
    have hbooks := h.books
    unfold EngineState.out EngineState.reserved at hbooks ⊢
    rw [hwarm, hserved, honeoffs]
    exact hbooks
  held c hc hgone := by
    rw [hwarm] at hc
    have hheld := h.held c hc (halive _ hgone)
    unfold EngineState.out at hheld ⊢
    rwa [hserved]

theorem prefixAlive_insert_ready (e : EngineState F) {p q : String} {data : PrefixData}
    {prefixes : AList fun _ : String => StoredPrefix}
    (hprefixes : prefixes = e.prefixes.insert q (.ready data))
    (h : ((prefixes.lookup p).map StoredPrefix.isReady).getD false = false) : e.prefixAlive p = false := by
  by_cases hp : p = q
  · subst hp
    rw [hprefixes, AList.lookup_insert] at h
    cases h
  · rw [hprefixes, AList.lookup_insert_ne hp] at h
    exact h

/-- Taking a prefix out of service, with its idle instances. -/
theorem EngineState.Sound.retirePrefix {e' : EngineState F} {p : String} (h : e.Sound)
    (hwarm : e'.warm = Iso4.disposePrefix e.warm p) (hserved : e'.served = e.served)
    (honeoffs : e'.oneoffs = e.oneoffs)
    (hother : ∀ q, q ≠ p → e'.prefixAlive q = e.prefixAlive q) : e'.Sound := by
  have hout : e'.out = e.out := by
    unfold EngineState.out
    rw [hserved]
  have hreserved : e'.reserved = e.reserved := by
    unfold EngineState.reserved
    rw [hserved, honeoffs]
  have hbooks : e'.warm.Balanced e.out e.reserved := by
    rw [hwarm]
    exact disposePrefix_balanced h.books
  refine ⟨by rw [hout, hreserved]; exact hbooks, fun c hc hgone => ?_⟩
  rw [hout]
  rw [hwarm] at hc
  rcases cards_disposePrefix hc with ⟨hold, hne⟩ | ⟨i, -, rfl⟩
  · exact h.held c hold ((hother _ hne).symm.trans hgone)
  · rw [← hwarm] at hc
    exact dead_held hbooks hc rfl

/-- A section of the registry that leaves its records alone. -/
theorem EngineState.Sound.thins {e' : EngineState F} (h : e.Sound) (hthin : Thins e.warm e'.warm)
    (hprefixes : e'.prefixes = e.prefixes) (hout : e'.out = e.out)
    (hbooks : e'.warm.Balanced e'.out e'.reserved) : e'.Sound where
  books := hbooks
  held c hc hgone := by
    unfold EngineState.prefixAlive at hgone
    rw [hprefixes] at hgone
    rw [hout]
    exact h.held c (hthin.cards hc) hgone

/-- What the answered run books is what it holds. -/
theorem book_servedBy (p : String) (answer : Acquired) (served : List ServedRun) (oneoffs : Nat) :
    answer.book p (served.filterMap ServedRun.held) (oneoffs + served.countP ServedRun.isCold) =
      ((servedBy p answer ++ served).filterMap ServedRun.held,
        oneoffs + (servedBy p answer ++ served).countP ServedRun.isCold) := by
  cases answer with
  | attached id => rfl
  | cold =>
    refine Prod.ext rfl ?_
    show oneoffs + served.countP ServedRun.isCold + 1 =
      oneoffs + (⟨p, .cold⟩ :: served).countP ServedRun.isCold
    rw [List.countP_cons_of_pos (p := ServedRun.isCold) rfl, Nat.add_assoc]
  | refused message => rfl
  | spawnFailed error => rfl

theorem sound_acquire (h : e.Sound) (k : Nat) (r : Reading F) (spawn : Except String Unit)
    (util : Nat → Nat) : (e.acquire cfg k r spawn util).Sound := by
  unfold EngineState.acquire
  split
  · next run hrun =>
    have hbooks : (Iso4.acquire cfg e.warm run.prefixId run.caps r spawn util).1.Balanced
        (Acquired.book run.prefixId e.out e.reserved
          (Iso4.acquire cfg e.warm run.prefixId run.caps r spawn util).2).1
        (Acquired.book run.prefixId e.out e.reserved
          (Iso4.acquire cfg e.warm run.prefixId run.caps r spawn util).2).2 := acquire_balanced h.books
    have hadm := admits_acquire cfg e.warm run.prefixId run.caps r spawn util
    dsimp only
    generalize Iso4.acquire cfg e.warm run.prefixId run.caps r spawn util = answered at hbooks hadm ⊢
    obtain ⟨warm, answer⟩ := answered
    refine ⟨?_, fun c hc hgone => ?_⟩
    · have hbook := book_servedBy run.prefixId answer e.served e.oneoffs
      unfold EngineState.out EngineState.reserved at hbooks ⊢
      rw [hbook] at hbooks
      exact hbooks
    · have hgone : e.prefixAlive c.prefixId = false := hgone
      have hkept : (c.prefixId, c.id) ∈ e.out →
          (c.prefixId, c.id) ∈ (servedBy run.prefixId answer ++ e.served).filterMap ServedRun.held := by
        intro hheld
        rw [List.filterMap_append]
        exact List.mem_append_right _ hheld
      cases answer with
      | attached id =>
        rcases hadm with ⟨hthin, -⟩ | ⟨-, -, hcards⟩
        · exact hkept (h.held c (hthin.cards hc) hgone)
        · rcases List.mem_cons.mp (hcards hc) with rfl | hc
          · exact List.mem_cons_self
          · exact hkept (h.held c hc hgone)
      | cold => exact hkept (h.held c (hadm.cards hc) hgone)
      | refused message => exact hkept (h.held c (hadm.cards hc) hgone)
      | spawnFailed error => exact hkept (h.held c (hadm.cards hc) hgone)
  · exact h

/-- A pooled run gives its instance back: what is left balances without it, and the records of
prefixes that cannot run are held by the other runs. -/
theorem held_givenBack (h : e.Sound) {k : Nat} {p : String} {id : Nat}
    (hrun : e.served[k]? = some ⟨p, .pooled id⟩) (cfg : WarmConfig) (report : RunReport F)
    (now : Nat) :
    (e.warm.givenBack cfg p id report (e.prefixAlive p) now).Balanced
        ((e.served.eraseIdx k).filterMap ServedRun.held)
        (e.oneoffs + (e.served.eraseIdx k).countP ServedRun.isCold) ∧
      ∀ c ∈ (e.warm.givenBack cfg p id report (e.prefixAlive p) now).cards,
        e.prefixAlive c.prefixId = false →
        (c.prefixId, c.id) ∈ (e.served.eraseIdx k).filterMap ServedRun.held := by
  have hsplit := served_split hrun
  have hout : ((p, id) :: (e.served.eraseIdx k).filterMap ServedRun.held).Perm e.out :=
    hsplit.filterMap ServedRun.held
  have hcold : (e.served.eraseIdx k).countP ServedRun.isCold = e.served.countP ServedRun.isCold :=
    hsplit.countP_eq ServedRun.isCold
  have hbooks : e.warm.Balanced ((p, id) :: (e.served.eraseIdx k).filterMap ServedRun.held)
      (e.oneoffs + (e.served.eraseIdx k).countP ServedRun.isCold) := by
    rw [hcold]
    exact Books.permOut h.books hout.symm
  have hafter : (e.warm.givenBack cfg p id report (e.prefixAlive p) now).Balanced
      ((e.served.eraseIdx k).filterMap ServedRun.held)
      (e.oneoffs + (e.served.eraseIdx k).countP ServedRun.isCold) := givenBack_balanced hbooks
  have hcards : Releases e.warm (e.warm.givenBack cfg p id report (e.prefixAlive p) now) p id
      report (e.prefixAlive p) := releases_givenBack hbooks
  refine ⟨hafter, fun c hc hgone => ?_⟩
  rcases hcards.2 c hc with ⟨hold, hne⟩ | ⟨i, -, -, rfl⟩
  · -- Another instance: the run that ends did not hold it.
    rcases List.mem_cons.mp (hout.mem_iff.mpr (h.held c hold hgone)) with heq | hheld
    · exact absurd (Prod.mk.inj heq).2 hne
    · exact hheld
  · refine dead_held hafter hc ?_
    have hgone : e.prefixAlive p = false := hgone
    show (i.released report (e.prefixAlive p)).dead = true
    rw [released_dead, hgone]
    simp

theorem sound_release (h : e.Sound) (k : Nat) (report : RunReport F) (r : Reading F) :
    (e.release cfg k report r).Sound := by
  unfold EngineState.release
  split
  · next run hrun =>
    dsimp only
    obtain ⟨p, taken⟩ := run
    cases taken with
    | pooled id =>
      obtain ⟨hbooks, hheld⟩ := held_givenBack h hrun cfg report r.now
      refine ⟨pressurePass_balanced hbooks, fun c hc hgone => ?_⟩
      exact hheld c ((thins_pressurePass _ _ _ _ _).cards hc) hgone
    | cold =>
      have hsplit := served_split hrun
      have hout : ((e.served.eraseIdx k).filterMap ServedRun.held).Perm e.out :=
        hsplit.filterMap ServedRun.held
      have hcold : (e.served.eraseIdx k).countP ServedRun.isCold + 1 =
          e.served.countP ServedRun.isCold := by
        rw [← hsplit.countP_eq ServedRun.isCold, List.countP_cons_of_pos rfl]
      have hbooks : e.warm.Balanced ((e.served.eraseIdx k).filterMap ServedRun.held)
          (e.oneoffs + (e.served.eraseIdx k).countP ServedRun.isCold + 1) := by
        rw [Nat.add_assoc, hcold]
        exact Books.permOut h.books hout.symm
      refine ⟨releaseOneoff_balanced hbooks, fun c hc hgone => ?_⟩
      have hthin := thins_releaseOneoff cfg e.warm report.tainted report.wallTimeMs report.cpuTimeMs r
      exact hout.mem_iff.mpr (h.held c (hthin.cards hc) hgone)
  · exact h

theorem sound_markBroken (h : e.Sound) (k : Nat) (raw : RunErrorPayload) : (e.markBroken k raw).Sound := by
  unfold EngineState.markBroken
  split
  · next run hrun =>
    split
    · next data hready =>
      refine h.retirePrefix rfl rfl rfl fun q hq => ?_
      unfold EngineState.prefixAlive
      rw [AList.lookup_insert_ne hq]
    · exact h
    · exact h
  · exact h

theorem sound_step (cfg : WarmConfig) (e : EngineState F) (op : EngineOp F) (h : e.Sound) :
    (e.step cfg op).Sound := by
  cases op with
  | takeId code filename globals imports => exact h.still rfl rfl rfl fun _ hgone => hgone
  | insertPrefix k =>
    show (e.insertPrefix k).Sound
    unfold EngineState.insertPrefix
    split
    · exact h.still rfl rfl rfl fun p hgone => prefixAlive_insert_ready e rfl hgone
    · exact h
  | disposePrefix p =>
    refine h.retirePrefix rfl rfl rfl fun q hq => ?_
    show (((e.prefixes.erase p).lookup q).map StoredPrefix.isReady).getD false = e.prefixAlive q
    rw [AList.lookup_erase_ne hq]
    rfl
  | lookup req =>
    show (e.lookup req).Sound
    unfold EngineState.lookup
    split
    · split
      · exact h
      · split
        · exact h
        · exact h.still rfl rfl rfl fun _ hgone => hgone
    · exact h
    · exact h
  | acquire k r spawn util => exact sound_acquire h k r spawn util
  | markBroken k raw => exact sound_markBroken h k raw
  | release k report r => exact sound_release h k report r
  | reserveOneoff runCapBytes r =>
    refine h.thins (thins_reserveOneoff cfg _ _ _) rfl rfl ?_
    have hbooks : (Iso4.reserveOneoff cfg e.warm runCapBytes r).1.Balanced e.out
        (if (Iso4.reserveOneoff cfg e.warm runCapBytes r).2.isOk then e.reserved + 1
          else e.reserved) := reserveOneoff_balanced h.books
    have hreserved : (e.reserveOneoff cfg runCapBytes r).reserved =
        if (Iso4.reserveOneoff cfg e.warm runCapBytes r).2.isOk then e.reserved + 1
          else e.reserved := by
      show (if (Iso4.reserveOneoff cfg e.warm runCapBytes r).2.isOk then e.oneoffs + 1
        else e.oneoffs) + e.served.countP ServedRun.isCold = _
      unfold EngineState.reserved
      split <;> omega
    show (Iso4.reserveOneoff cfg e.warm runCapBytes r).1.Balanced e.out
      (e.reserveOneoff cfg runCapBytes r).reserved
    rw [hreserved]
    exact hbooks
  | releaseOneoff tainted wallMs cpuMs r =>
    show (e.releaseOneoff cfg tainted wallMs cpuMs r).Sound
    unfold EngineState.releaseOneoff
    split
    · exact h
    · next hpos =>
      refine h.thins (thins_releaseOneoff cfg _ _ _ _ _) rfl rfl ?_
      refine releaseOneoff_balanced ?_
      have hreserved : e.oneoffs - 1 + e.served.countP ServedRun.isCold + 1 = e.reserved := by
        unfold EngineState.reserved
        omega
      show e.warm.Balanced e.out (e.oneoffs - 1 + e.served.countP ServedRun.isCold + 1)
      rw [hreserved]
      exact h.books

end Engine

end Iso4
