/-
Runs on a prefix's instances (`Engine::prefix_run` of `crates/core/src/engine.rs`, with the
registry of `crates/core/src/warm.rs` and the owner threads).

A run is accepted in two steps of its session thread: the registry attaches it to an instance, and
its job is sent to that instance.  A job that the thread no longer receives is finished by the
session.  `Engine` is the registry with every owner thread and the runs between them; its steps
are those of the sessions, the threads and the registry, in any order.

* `Engine.runHooks_hooked` — the hooks of runs that had an attachment each give it back.
-/
import Iso4.InstanceJobs
import Iso4.Retirement

namespace Iso4

open Program Execution

/-! ### Handles -/

section Handles

variable {F : Type} [F64 F]

/-- The registry has dropped the handle of a pooled instance. -/
def RegistryInner.Dropped (s : RegistryInner F) (id : Nat) : Prop :=
  id < s.nextInstanceId ∧ ∀ f ∈ s.records, f.2.id ≠ id

instance RegistryInner.decidableDropped (s : RegistryInner F) (id : Nat) :
    Decidable (s.Dropped id) := inferInstanceAs (Decidable (_ ∧ _))

theorem RegistryInner.dropped_iff {s : RegistryInner F} {id : Nat} :
    s.Dropped id ↔ id < s.nextInstanceId ∧ ∀ k ∈ s.cards, k.id ≠ id := by
  refine and_congr_right fun _ => ⟨?_, ?_⟩
  · intro h k hk
    obtain ⟨f, hf, rfl⟩ := mem_cards.mp hk
    exact h f hf
  · intro h f hf
    exact h _ (mem_cards.mpr ⟨f, hf, rfl⟩)

/-- No id is handed out twice: what a call leaves on record was there, or is new. -/
theorem World.step_cards (cfg : WarmConfig) {w : World F}
    (h : w.registry.Balanced w.out w.oneoffs) (op : RegistryOp F) :
    w.registry.nextInstanceId ≤ (w.step cfg op).registry.nextInstanceId ∧
      ∀ k ∈ (w.step cfg op).registry.cards,
        (∃ k' ∈ w.registry.cards, k'.id = k.id) ∨ w.registry.nextInstanceId ≤ k.id := by
  have hthins : ∀ {s' : RegistryInner F}, Thins w.registry s' →
      w.registry.nextInstanceId ≤ s'.nextInstanceId ∧ ∀ k ∈ s'.cards,
        (∃ k' ∈ w.registry.cards, k'.id = k.id) ∨ w.registry.nextInstanceId ≤ k.id := by
    intro s' ht
    exact ⟨ht.next.ge, fun k hk => Or.inl ⟨k, ht.cards hk, rfl⟩⟩
  cases op with
  | acquire p caps r spawn util =>
    have ha := admits_acquire cfg w.registry p caps r spawn util
    simp only [World.step]
    cases hanswer : (acquire cfg w.registry p caps r spawn util).2 with
    | attached id =>
      rw [hanswer] at ha
      obtain ⟨ht, -⟩ | ⟨rfl, hnext, hcards⟩ := ha
      · exact hthins ht
      · refine ⟨by omega, ?_⟩
        intro k hk
        obtain rfl | hk := List.mem_cons.mp (hcards hk)
        · exact Or.inr (Nat.le_refl _)
        · exact Or.inl ⟨k, hk, rfl⟩
    | cold =>
      rw [hanswer] at ha
      exact hthins ha
    | refused message =>
      rw [hanswer] at ha
      exact hthins ha
    | spawnFailed error =>
      rw [hanswer] at ha
      exact hthins ha
  | release n report alive r =>
    simp only [World.step]
    cases hn : w.out[n]? with
    | none => exact hthins (.refl _)
    | some a =>
      obtain ⟨hlt, rfl⟩ := List.getElem?_eq_some_iff.mp hn
      have hr : Releases w.registry
          (release cfg w.registry w.out[n].1 w.out[n].2 report alive r) w.out[n].1 w.out[n].2
          report alive :=
        releases_release (Books.permOut h (List.getElem_cons_eraseIdx_perm hlt).symm)
      refine ⟨hr.1.ge, ?_⟩
      intro k hk
      obtain ⟨hk, -⟩ | ⟨i, hi, -, rfl⟩ := hr.2 k hk
      · exact Or.inl ⟨k, hk, rfl⟩
      · exact Or.inl ⟨_, hi, (released_facts i report alive).1.symm⟩
  | reserveOneoff cap r => exact hthins (thins_reserveOneoff cfg w.registry cap r)
  | releaseOneoff tainted wallMs cpuMs r =>
    unfold World.step
    dsimp only
    split
    · exact hthins (.refl _)
    · exact hthins (thins_releaseOneoff cfg w.registry tainted wallMs cpuMs r)
  | disposePrefix p =>
    refine ⟨(next_disposePrefix w.registry p).ge, ?_⟩
    intro k hk
    obtain ⟨hk, -⟩ | ⟨i, hi, rfl⟩ := cards_disposePrefix hk
    · exact Or.inl ⟨k, hk, rfl⟩
    · exact Or.inl ⟨_, hi, rfl⟩

/-- A dropped handle stays dropped. -/
theorem World.step_dropped (cfg : WarmConfig) {w : World F}
    (h : w.registry.Balanced w.out w.oneoffs) (op : RegistryOp F) {id : Nat}
    (hd : w.registry.Dropped id) : (w.step cfg op).registry.Dropped id := by
  obtain ⟨hnext, hcards⟩ := World.step_cards cfg h op
  obtain ⟨hlt, hgone⟩ := RegistryInner.dropped_iff.mp hd
  refine RegistryInner.dropped_iff.mpr ⟨by omega, ?_⟩
  intro k hk heq
  obtain ⟨k', hk', hid⟩ | hnew := hcards k hk
  · exact hgone k' hk' (hid.trans heq)
  · omega

omit [F64 F] in
/-- No run is attached to an instance whose handle was dropped. -/
theorem not_mem_out_of_dropped {w : World F} (h : w.registry.Balanced w.out w.oneoffs) {p : String}
    {id : Nat} (hd : w.registry.Dropped id) : (p, id) ∉ w.out := by
  intro hmem
  obtain ⟨f, hf, hkey⟩ := Books.held h (p, id) hmem
  exact hd.2 f hf (Prod.mk.inj hkey).2

end Handles

/-! ### The engine -/

section Engine

variable {F : Type} [F64 F]

/-- The instance a run was given: a pooled one, or one for this run alone. -/
inductive Seat where
  | pooled (id : Nat)
  | cold (token : Nat)
  deriving DecidableEq, Repr

/-- A run that `prefix_run` accepted. -/
structure AcceptedRun where
  job : CallJob
  prefixId : String
  seat : Seat
  deriving DecidableEq, Repr

/-- What the release hook of a run finds besides its outcome. -/
structure HookReading (F : Type) where
  /-- The cold start failed, and the prefix is marked broken. -/
  marksBroken : Bool
  heapUsedBytes : Nat
  wallTimeMs : F
  cpuTimeMs : F
  prefixAlive : Bool
  reading : Reading F

structure Engine (F : Type) where
  world : World F
  /-- The owner threads; one that was not spawned stands at its start. -/
  threads : Seat → Inst
  /-- The session threads, as far as they finish jobs themselves. -/
  sessions : Core
  /-- The accepted runs, newest first. -/
  accepted : List AcceptedRun
  /-- The runs whose finish hook ran, newest first. -/
  hooks : List Nat
  nextToken : Nat
  /-- The running one-offs of `sandbox.run()`. -/
  oneoffRuns : Nat

/-- One step of a session, of an owner thread or of the registry. -/
inductive RunOp (F : Type) where
  /-- `prefix_run` up to the answer of the registry. -/
  | acquire (prefixId : String) (caps : HeapCaps) (r : Reading F) (spawn : Except String Unit)
      (util : Nat → Nat) (runId : Nat) (limits : Limits)
  /-- A step of an owner thread, and what its release hooks find. -/
  | thread (seat : Seat) (script : Script) (h : Nat → HookReading F)
  /-- The session sends a job, and the receiver is gone. -/
  | sendFails (token : Nat) (script : Script) (h : HookReading F)
  | disposePrefix (prefixId : String)
  | reserveOneoff (runCapBytes : Nat) (r : Reading F)
  | releaseOneoff (tainted : Bool) (wallMs cpuMs : F) (r : Reading F)

def Inst.isGone (s : Inst) : Bool :=
  match s.pc with
  | .gone => true
  | _ => false

theorem Inst.isGone_iff {s : Inst} : s.isGone = true ↔ s.pc = .gone := by
  unfold Inst.isGone
  split
  · next hpc => exact ⟨fun _ => hpc, fun _ => rfl⟩
  · next hne => exact ⟨fun h => absurd h Bool.false_ne_true, fun hpc => absurd hpc hne⟩

/-- A thread that is gone does nothing. -/
theorem Inst.step_of_gone {s : Inst} (h : s.isGone = true) (script : Script) :
    s.step script = s.load script := by
  have hpc : (s.load script).pc = .gone := isGone_iff.mp h
  unfold Inst.step Inst.advance
  rw [hpc]

/-- The job of an accepted run. -/
def prefixJob (token runId : Nat) (limits : Limits) : CallJob where
  token := token
  limits := limits
  entry := .prefixExport
  call := true
  epilogue := some runId
  link := true

/-- The releases a history gained, oldest first. -/
def newReleases (before after : List Event) : List (Nat × Bool) :=
  (after.take (after.length - before.length)).reverse.filterMap fun e =>
    match e with
    | .released token tainted => some (token, tainted)
    | _ => none

/-- The tokens of the new releases, oldest first. -/
theorem newReleases_tokens (noted before : List Event) :
    (newReleases before (noted ++ before)).map Prod.fst = (releasedTokens noted).reverse := by
  have hnew : (noted ++ before).take ((noted ++ before).length - before.length) = noted := by
    rw [List.length_append, Nat.add_sub_cancel, List.take_left]
  unfold newReleases
  rw [hnew, List.map_filterMap, releasedTokens, ← List.filterMap_reverse]
  refine List.filterMap_congr fun e _ => ?_
  cases e <;> rfl

namespace Engine

def new (F : Type) [F64 F] : Engine F where
  world := .new F
  threads := fun _ => .new 0
  sessions := .new 0
  accepted := []
  hooks := []
  nextToken := 1
  oneoffRuns := 0

/-- The seat of an instance the registry answered with. -/
def seatOf (token : Nat) : Acquired → Option Seat
  | .attached id => some (.pooled id)
  | .cold => some (.cold token)
  | _ => none

/-- Take the answer of the registry to an acquire. -/
def accept (e : Engine F) (prefixId : String) (runId : Nat) (limits : Limits) (answer : Acquired) :
    Engine F :=
  { e with
    nextToken := e.nextToken + 1
    accepted :=
      match seatOf e.nextToken answer with
      | some seat => ⟨prefixJob e.nextToken runId limits, prefixId, seat⟩ :: e.accepted
      | none => e.accepted }

/-- Give the instance of a run back. -/
def giveBack (cfg : WarmConfig) (w : World F) (a : AcceptedRun) (tainted : Bool)
    (h : HookReading F) : World F :=
  match a.seat with
  | .pooled id =>
    w.step cfg (.release (w.out.idxOf (a.prefixId, id))
      ⟨tainted, h.heapUsedBytes, h.wallTimeMs, h.cpuTimeMs⟩ h.prefixAlive h.reading)
  | .cold _ => w.step cfg (.releaseOneoff tainted h.wallTimeMs h.cpuTimeMs h.reading)

/-- The release hook of a run. -/
def hook (cfg : WarmConfig) (e : Engine F) (token : Nat) (tainted : Bool) (h : HookReading F) :
    Engine F :=
  match e.accepted.find? fun a => a.job.token = token with
  | none => e
  | some a =>
    let w := if h.marksBroken then e.world.step cfg (.disposePrefix a.prefixId) else e.world
    { e with world := giveBack cfg w a tainted h, hooks := token :: e.hooks }

def runHooks (cfg : WarmConfig) (h : Nat → HookReading F) (e : Engine F) :
    List (Nat × Bool) → Engine F
  | [] => e
  | (token, tainted) :: rest => (e.hook cfg token tainted (h token)).runHooks cfg h rest

/-- The handle of an instance was dropped; an instance for one run is dropped by its hook. -/
def HandleDropped (e : Engine F) : Seat → Prop
  | .pooled id => e.world.registry.Dropped id
  | .cold token => token ∈ e.hooks

/-- What may come through the channel of an instance: the jobs of its runs, and `Retire` once the
handle was dropped. -/
def MayCome (e : Engine F) (seat : Seat) : RunEvent → Prop
  | .job j => ∃ a ∈ e.accepted, a.seat = seat ∧ a.job = j
  | .host _ => True
  | .retire => e.HandleDropped seat

/-- What may happen during a step of an owner thread.  The handle is a sender of its channel. -/
structure Admits (e : Engine F) (seat : Seat) (script : Script) : Prop where
  passes : script.Passes (Passing.Brings (e.MayCome seat))
  hungUp : script.hungUp = true → e.HandleDropped seat

instance decidableHandleDropped (e : Engine F) : (seat : Seat) → Decidable (e.HandleDropped seat)
  | .pooled _ => inferInstanceAs (Decidable (RegistryInner.Dropped _ _))
  | .cold _ => inferInstanceAs (Decidable (_ ∈ _))

instance decidableMayCome (e : Engine F) (seat : Seat) : DecidablePred (e.MayCome seat)
  | .job j => inferInstanceAs (Decidable (∃ a ∈ e.accepted, a.seat = seat ∧ a.job = j))
  | .host _ => isTrue trivial
  | .retire => inferInstanceAs (Decidable (e.HandleDropped seat))

instance decidableAdmits (e : Engine F) (seat : Seat) (script : Script) :
    Decidable (e.Admits seat script) :=
  decidable_of_iff (script.Passes (Passing.Brings (e.MayCome seat)) ∧
    (script.hungUp = true → e.HandleDropped seat)) ⟨fun h => ⟨h.1, h.2⟩, fun h => ⟨h.1, h.2⟩⟩

/-- A step of an owner thread, with the release hooks that run in it. -/
def runThread (cfg : WarmConfig) (e : Engine F) (seat : Seat) (script : Script)
    (h : Nat → HookReading F) : Engine F :=
  { e with threads := Function.update e.threads seat ((e.threads seat).step script) }.runHooks cfg h
    (newReleases (e.threads seat).log ((e.threads seat).step script).log)

/-- The job of the run was sent, or finished by its session. -/
def Sent (e : Engine F) (a : AcceptedRun) : Prop :=
  a.job.token ∈ (e.threads a.seat).seen ∨ a.job.token ∈ releasedTokens e.sessions.log

instance decidableSent (e : Engine F) (a : AcceptedRun) : Decidable (e.Sent a) :=
  inferInstanceAs (Decidable (_ ∨ _))

/-- The session finishes a job that the thread no longer receives. -/
def finishDead (cfg : WarmConfig) (e : Engine F) (a : AcceptedRun) (script : Script)
    (h : HookReading F) : Engine F :=
  { e with
    sessions := ({ e.sessions with script := script } : Core).finishJob a.job
      (.error (.internal "warm instance thread died before completing the call")) true
      false }.hook cfg a.job.token true h

def step (cfg : WarmConfig) (e : Engine F) : RunOp F → Engine F
  | .acquire p caps r spawn util runId limits =>
    { e with world := e.world.step cfg (.acquire p caps r spawn util) }.accept p runId limits
      (Iso4.acquire cfg e.world.registry p caps r spawn util).2
  | .thread seat script h => if e.Admits seat script then e.runThread cfg seat script h else e
  | .sendFails token script h =>
    match e.accepted.find? fun a => a.job.token = token with
    | none => e
    | some a =>
      if (e.threads a.seat).isGone = true ∧ ¬ e.Sent a then e.finishDead cfg a script h else e
  | .disposePrefix p => { e with world := e.world.step cfg (.disposePrefix p) }
  | .reserveOneoff cap r =>
    { e with
      world := e.world.step cfg (.reserveOneoff cap r)
      oneoffRuns :=
        if (Iso4.reserveOneoff cfg e.world.registry cap r).2.isOk then e.oneoffRuns + 1
        else e.oneoffRuns }
  | .releaseOneoff tainted wallMs cpuMs r =>
    if e.oneoffRuns = 0 then e
    else
      { e with
        world := e.world.step cfg (.releaseOneoff tainted wallMs cpuMs r)
        oneoffRuns := e.oneoffRuns - 1 }

/-- The step drops no job. -/
def DropsNone (e : Engine F) : RunOp F → Prop
  | .thread seat script _ => e.Admits seat script → ((e.threads seat).load script).DropsNone
  | _ => True

instance decidableDropsNone (e : Engine F) : (op : RunOp F) → Decidable (e.DropsNone op)
  | .thread seat script _ =>
    inferInstanceAs (Decidable (e.Admits seat script → ((e.threads seat).load script).DropsNone))
  | .acquire _ _ _ _ _ _ _ => isTrue trivial
  | .sendFails _ _ _ => isTrue trivial
  | .disposePrefix _ => isTrue trivial
  | .reserveOneoff _ _ => isTrue trivial
  | .releaseOneoff _ _ _ _ => isTrue trivial

/-! ### What the registry holds -/

/-- The attachment of a run whose hook has not run. -/
def attachment (hooks : List Nat) (a : AcceptedRun) : Option (String × Nat) :=
  if a.job.token ∈ hooks then none
  else match a.seat with
    | .pooled id => some (a.prefixId, id)
    | .cold _ => none

/-- A run on an instance of its own whose hook has not run. -/
def isReserved (hooks : List Nat) (a : AcceptedRun) : Bool :=
  decide (a.job.token ∉ hooks) && match a.seat with
    | .pooled _ => false
    | .cold _ => true

/-- The registry holds an attachment or a reservation for each run whose hook has not run. -/
structure Attached (e : Engine F) : Prop where
  balanced : e.world.registry.Balanced e.world.out e.world.oneoffs
  out : e.world.out.Perm (e.accepted.filterMap (attachment e.hooks))
  oneoffs : e.world.oneoffs = e.accepted.countP (isReserved e.hooks) + e.oneoffRuns

/-! ### What a run can expect -/

/-- The instance has the run: in the hands of its thread, live, or in its channel. -/
def InHand (e : Engine F) (a : AcceptedRun) : Prop :=
  a.job.token ∈ (e.threads a.seat).pc.tokens ∨
    a.job.token ∈ (e.threads a.seat).live.map LiveRun.token ∨
    a.job.token ∈ jobTokens (e.threads a.seat).queue

/-- The final messages of a run that its link took. -/
def finals (e : Engine F) (a : AcceptedRun) : Nat :=
  Iso4.finals a.job.token (e.threads a.seat).log + Iso4.finals a.job.token e.sessions.log

def refusals (e : Engine F) (a : AcceptedRun) : Nat :=
  Iso4.refusals a.job.token (e.threads a.seat).log + Iso4.refusals a.job.token e.sessions.log

/-- Every accepted run is answered, and once. -/
structure AnsweredOnce (e : Engine F) : Prop where
  once : ∀ a ∈ e.accepted, e.hooks.count a.job.token ≤ 1
  only : ∀ token ∈ e.hooks, ∃ a ∈ e.accepted, a.job.token = token
  /-- A run whose hook has not run is still to be sent, or its instance has it. -/
  pending : ∀ a ∈ e.accepted, a.job.token ∉ e.hooks → ¬ e.Sent a ∨ e.InHand a
  /-- When its thread is gone, the hook of a run has run. -/
  ended : ∀ a ∈ e.accepted, (e.threads a.seat).isGone = true → e.Sent a →
    e.hooks.count a.job.token = 1
  /-- The attachments of the other runs are held. -/
  attached : e.Attached
  /-- With its hook a run gets one final message, unless the link refuses it. -/
  messages : ∀ a ∈ e.accepted, e.finals a ≤ e.hooks.count a.job.token ∧
    e.hooks.count a.job.token ≤ e.finals a + e.refusals a
  elsewhere : ∀ a ∈ e.accepted, ∀ seat ≠ a.seat,
    Iso4.finals a.job.token (e.threads seat).log = 0

/-! ### The hooks -/

section Hooks

variable {e : Engine F} {a : AcceptedRun}

omit [F64 F] in
theorem find_accepted (hn : (e.accepted.map fun a => a.job.token).Nodup) (ha : a ∈ e.accepted) :
    e.accepted.find? (fun b => b.job.token = a.job.token) = some a := by
  cases hfind : e.accepted.find? (fun b => b.job.token = a.job.token) with
  | none =>
    have hnot := List.find?_eq_none.mp hfind a ha
    simp at hnot
  | some b =>
    have htoken : b.job.token = a.job.token := by simpa using List.find?_some hfind
    rw [List.inj_on_of_nodup_map hn (List.mem_of_find?_eq_some hfind) ha htoken]

omit [F64 F] in
/-- One accepted run, and the others. -/
theorem split_accepted (hn : (e.accepted.map fun a => a.job.token).Nodup) (ha : a ∈ e.accepted) :
    ∃ rest, e.accepted.Perm (a :: rest) ∧ ∀ b ∈ rest, b.job.token ≠ a.job.token := by
  have hperm := List.perm_cons_erase ha
  refine ⟨e.accepted.erase a, hperm, ?_⟩
  intro b hb heq
  have hn' := (hperm.map fun a => a.job.token).nodup_iff.mp hn
  rw [List.map_cons, List.nodup_cons] at hn'
  exact hn'.1 (List.mem_map.mpr ⟨b, hb, heq⟩)

theorem attachment_of_ne {hooks : List Nat} {token : Nat} {b : AcceptedRun}
    (h : b.job.token ≠ token) : attachment (token :: hooks) b = attachment hooks b := by
  unfold attachment
  simp [h]

theorem isReserved_of_ne {hooks : List Nat} {token : Nat} {b : AcceptedRun}
    (h : b.job.token ≠ token) : isReserved (token :: hooks) b = isReserved hooks b := by
  unfold isReserved
  simp [h]

omit [F64 F] in
/-- The attachments, with the one of a run in front. -/
theorem attachments_split (hn : (e.accepted.map fun a => a.job.token).Nodup)
    (ha : a ∈ e.accepted) (hooks : List Nat) :
    (e.accepted.filterMap (attachment hooks)).Perm ((attachment hooks a).toList ++
      e.accepted.filterMap (attachment (a.job.token :: hooks))) := by
  obtain ⟨rest, hperm, hne⟩ := split_accepted hn ha
  have hself : attachment (a.job.token :: hooks) a = none := by
    unfold attachment
    rw [if_pos List.mem_cons_self]
  -- the hook of one run changes nothing for the others
  have hrest : rest.filterMap (attachment (a.job.token :: hooks)) =
      rest.filterMap (attachment hooks) :=
    List.filterMap_congr fun b hb => attachment_of_ne (hne b hb)
  have hafter := hperm.filterMap (attachment (a.job.token :: hooks))
  rw [List.filterMap_cons_none hself, hrest] at hafter
  refine (hperm.filterMap (attachment hooks)).trans ?_
  refine List.Perm.trans ?_ (hafter.symm.append_left (attachment hooks a).toList)
  rw [List.filterMap_cons]
  cases attachment hooks a with
  | none => exact List.Perm.refl _
  | some k => exact List.Perm.refl _

omit [F64 F] in
theorem reserved_split (hn : (e.accepted.map fun a => a.job.token).Nodup) (ha : a ∈ e.accepted)
    (hooks : List Nat) :
    e.accepted.countP (isReserved hooks) =
      (if isReserved hooks a = true then 1 else 0) +
        e.accepted.countP (isReserved (a.job.token :: hooks)) := by
  obtain ⟨rest, hperm, hne⟩ := split_accepted hn ha
  have hself : isReserved (a.job.token :: hooks) a = false := by
    unfold isReserved
    simp
  have hrest : rest.countP (isReserved (a.job.token :: hooks)) = rest.countP (isReserved hooks) :=
    List.countP_congr fun b hb => by rw [isReserved_of_ne (hne b hb)]
  rw [hperm.countP_eq, hperm.countP_eq, List.countP_cons, List.countP_cons, hself, hrest]
  simp only [Bool.false_eq_true, ↓reduceIte, Nat.add_zero]
  omega

theorem attachment_pooled {hooks : List Nat} (hnot : a.job.token ∉ hooks) {id : Nat}
    (hseat : a.seat = .pooled id) : attachment hooks a = some (a.prefixId, id) := by
  unfold attachment
  rw [if_neg hnot, hseat]

theorem attachment_cold {hooks : List Nat} {token : Nat} (hseat : a.seat = .cold token) :
    attachment hooks a = none := by
  unfold attachment
  rw [hseat]
  exact ite_self none

theorem isReserved_pooled {hooks : List Nat} {id : Nat} (hseat : a.seat = .pooled id) :
    isReserved hooks a = false := by
  unfold isReserved
  rw [hseat, Bool.and_false]

theorem isReserved_cold {hooks : List Nat} (hnot : a.job.token ∉ hooks) {token : Nat}
    (hseat : a.seat = .cold token) : isReserved hooks a = true := by
  unfold isReserved
  rw [decide_eq_true hnot, hseat, Bool.true_and]

/-- The hook of a run on a pooled instance gives its attachment back. -/
theorem release_attached {cfg : WarmConfig} (h : e.Attached) {w : World F}
    (hw : w.registry.Balanced w.out w.oneoffs) (hout : w.out = e.world.out)
    (honeoffs : w.oneoffs = e.world.oneoffs)
    (hn : (e.accepted.map fun a => a.job.token).Nodup) (ha : a ∈ e.accepted)
    (hfirst : a.job.token ∉ e.hooks) {id : Nat} (hseat : a.seat = .pooled id)
    (report : RunReport F) (alive : Bool) (r : Reading F) :
    Attached { e with
      world := w.step cfg (.release (w.out.idxOf (a.prefixId, id)) report alive r)
      hooks := a.job.token :: e.hooks } := by
  have hbefore : w.out.Perm ((a.prefixId, id) ::
      e.accepted.filterMap (attachment (a.job.token :: e.hooks))) := by
    have hsplit := attachments_split hn ha e.hooks
    rw [attachment_pooled hfirst hseat] at hsplit
    rw [hout]
    exact h.out.trans hsplit
  have hmem : (a.prefixId, id) ∈ w.out := hbefore.mem_iff.mpr List.mem_cons_self
  -- the first of equal attachments goes: they are the same instance of the same prefix
  have hlt := List.idxOf_lt_length_of_mem hmem
  have hat : w.out[w.out.idxOf (a.prefixId, id)] = (a.prefixId, id) := List.getElem_idxOf hlt
  have hsome : w.out[w.out.idxOf (a.prefixId, id)]? = some (a.prefixId, id) := by
    rw [List.getElem?_eq_getElem hlt, hat]
  have hstep : (w.step cfg (.release (w.out.idxOf (a.prefixId, id)) report alive r)).out =
      w.out.eraseIdx (w.out.idxOf (a.prefixId, id)) ∧
      (w.step cfg (.release (w.out.idxOf (a.prefixId, id)) report alive r)).oneoffs =
        w.oneoffs := by
    simp only [World.step]
    rw [hsome]
    exact ⟨rfl, rfl⟩
  refine ⟨step_balanced cfg w _ hw, ?_, ?_⟩
  · have herased := List.getElem_cons_eraseIdx_perm hlt
    rw [hat] at herased
    rw [hstep.1]
    exact (herased.trans hbefore).cons_inv
  · have hreserved := reserved_split hn ha e.hooks
    have hbooked := h.oneoffs
    rw [hreserved, isReserved_pooled hseat, if_neg Bool.false_ne_true] at hbooked
    rw [hstep.2, honeoffs]
    change _ = e.accepted.countP (isReserved (a.job.token :: e.hooks)) + e.oneoffRuns
    omega

/-- The hook of a run on an instance of its own gives its reservation back. -/
theorem releaseOneoff_attached {cfg : WarmConfig} (h : e.Attached) {w : World F}
    (hw : w.registry.Balanced w.out w.oneoffs) (hout : w.out = e.world.out)
    (honeoffs : w.oneoffs = e.world.oneoffs)
    (hn : (e.accepted.map fun a => a.job.token).Nodup) (ha : a ∈ e.accepted)
    (hfirst : a.job.token ∉ e.hooks) {token : Nat} (hseat : a.seat = .cold token) (tainted : Bool)
    (wallMs cpuMs : F) (r : Reading F) :
    Attached { e with
      world := w.step cfg (.releaseOneoff tainted wallMs cpuMs r)
      hooks := a.job.token :: e.hooks } := by
  have hbooked := h.oneoffs
  have hreserved := reserved_split hn ha e.hooks
  rw [isReserved_cold hfirst hseat, if_pos rfl] at hreserved
  have hpos : ¬ w.oneoffs = 0 := by omega
  have hstep : (w.step cfg (.releaseOneoff tainted wallMs cpuMs r)).out = w.out ∧
      (w.step cfg (.releaseOneoff tainted wallMs cpuMs r)).oneoffs = w.oneoffs - 1 := by
    simp only [World.step]
    rw [if_neg hpos]
    exact ⟨rfl, rfl⟩
  refine ⟨step_balanced cfg w _ hw, ?_, ?_⟩
  · have hsplit := attachments_split hn ha e.hooks
    rw [attachment_cold hseat] at hsplit
    rw [hstep.1, hout]
    exact h.out.trans hsplit
  · rw [hstep.2]
    change _ = e.accepted.countP (isReserved (a.job.token :: e.hooks)) + e.oneoffRuns
    omega

theorem giveBack_attached {cfg : WarmConfig} (h : e.Attached) {w : World F}
    (hw : w.registry.Balanced w.out w.oneoffs) (hout : w.out = e.world.out)
    (honeoffs : w.oneoffs = e.world.oneoffs)
    (hn : (e.accepted.map fun a => a.job.token).Nodup) (ha : a ∈ e.accepted)
    (hfirst : a.job.token ∉ e.hooks) (tainted : Bool) (hr : HookReading F) :
    Attached { e with
      world := giveBack cfg w a tainted hr
      hooks := a.job.token :: e.hooks } := by
  unfold giveBack
  split
  · next id hseat =>
    exact release_attached h hw hout honeoffs hn ha hfirst hseat _ _ _
  · next token hseat =>
    exact releaseOneoff_attached h hw hout honeoffs hn ha hfirst hseat _ _ _ _

/-- What the hooks of some runs leave. -/
structure Hooked (e e' : Engine F) (tokens : List Nat) : Prop where
  attached : e'.Attached
  hooks : e'.hooks = tokens.reverse ++ e.hooks
  accepted : e'.accepted = e.accepted
  threads : e'.threads = e.threads
  sessions : e'.sessions = e.sessions
  nextToken : e'.nextToken = e.nextToken
  handles : ∀ seat, e.HandleDropped seat → e'.HandleDropped seat

theorem hook_hooked {cfg : WarmConfig} (h : e.Attached)
    (hn : (e.accepted.map fun a => a.job.token).Nodup) (ha : a ∈ e.accepted)
    (hfirst : a.job.token ∉ e.hooks) (tainted : Bool) (hr : HookReading F) :
    Hooked e (e.hook cfg a.job.token tainted hr) [a.job.token] := by
  unfold hook
  rw [find_accepted hn ha]
  dsimp only
  generalize hdisposed : (if hr.marksBroken = true then
    e.world.step cfg (.disposePrefix a.prefixId) else e.world) = w
  have hw : w.registry.Balanced w.out w.oneoffs ∧ w.out = e.world.out ∧
      w.oneoffs = e.world.oneoffs ∧
      ∀ id, e.world.registry.Dropped id → w.registry.Dropped id := by
    rw [← hdisposed]
    split
    · exact ⟨step_balanced cfg _ _ h.balanced, rfl, rfl,
        fun id hd => World.step_dropped cfg h.balanced _ hd⟩
    · exact ⟨h.balanced, rfl, rfl, fun _ hd => hd⟩
  obtain ⟨hbalanced, hout, honeoffs, hdropped⟩ := hw
  refine ⟨giveBack_attached h hbalanced hout honeoffs hn ha hfirst tainted hr, rfl, rfl, rfl, rfl,
    rfl, ?_⟩
  intro seat hd
  cases seat with
  | pooled id =>
    change (giveBack cfg w a tainted hr).registry.Dropped id
    unfold giveBack
    split
    · exact World.step_dropped cfg hbalanced _ (hdropped id hd)
    · exact World.step_dropped cfg hbalanced _ (hdropped id hd)
  | cold token => exact List.mem_cons_of_mem _ hd

theorem runHooks_hooked {cfg : WarmConfig} {hr : Nat → HookReading F} {rs : List (Nat × Bool)}
    (h : e.Attached) (hn : (e.accepted.map fun a => a.job.token).Nodup)
    (haccepted : ∀ r ∈ rs, ∃ a ∈ e.accepted, a.job.token = r.1) (hrs : (rs.map Prod.fst).Nodup)
    (hfirst : ∀ r ∈ rs, r.1 ∉ e.hooks) :
    Hooked e (e.runHooks cfg hr rs) (rs.map Prod.fst) := by
  induction rs generalizing e with
  | nil => exact ⟨h, rfl, rfl, rfl, rfl, rfl, fun _ hd => hd⟩
  | cons r rs ih =>
    obtain ⟨a, ha, htoken⟩ := haccepted r List.mem_cons_self
    rw [List.map_cons, List.nodup_cons] at hrs
    have hone : Hooked e (e.hook cfg r.1 r.2 (hr r.1)) [r.1] := by
      have hnot := hfirst r List.mem_cons_self
      rw [← htoken] at hnot ⊢
      exact hook_hooked h hn ha hnot r.2 _
    have hrest : Hooked (e.hook cfg r.1 r.2 (hr r.1))
        ((e.hook cfg r.1 r.2 (hr r.1)).runHooks cfg hr rs) (rs.map Prod.fst) := by
      refine ih hone.attached (hone.accepted ▸ hn) ?_ hrs.2 ?_
      · rw [hone.accepted]
        exact fun r' hr' => haccepted r' (List.mem_cons_of_mem _ hr')
      · intro r' hr' hmem
        rw [hone.hooks] at hmem
        obtain heq | hold := List.mem_cons.mp hmem
        · exact hrs.1 (heq ▸ List.mem_map_of_mem hr')
        · exact hfirst r' (List.mem_cons_of_mem _ hr') hold
    refine ⟨hrest.attached, ?_, hrest.accepted.trans hone.accepted,
      hrest.threads.trans hone.threads, hrest.sessions.trans hone.sessions,
      hrest.nextToken.trans hone.nextToken,
      fun seat hd => hrest.handles seat (hone.handles seat hd)⟩
    change ((e.hook cfg r.1 r.2 (hr r.1)).runHooks cfg hr rs).hooks = _
    rw [hrest.hooks, hone.hooks]
    simp

end Hooks

end Engine

end Engine

end Iso4
