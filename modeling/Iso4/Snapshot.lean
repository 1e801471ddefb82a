/-
The snapshot of the warm registry (`WarmRegistry::stats` of `crates/core/src/warm.rs`).

A snapshot counts the instances anew, in whatever order the map is gone through, while the registry
keeps its own counters from one operation to the next.

* `stats_order` — the order makes no difference;
* `stats_truthful` — between any two critical sections of the engine a snapshot says how many runs
  there are, and its counts agree with the counters and with the store.
-/
import Iso4.Lib.Holdings
import Iso4.PrefixLife

namespace Iso4

open Execution

/-! ### What is counted -/

/-- `RegistryStats`. -/
structure RegistrySnapshot where
  oneoffRunning : Nat
  warmBusy : Nat
  warmRuns : Nat
  warmIdle : Nat
  idleHeapBytes : Nat
  perPrefix : List (String × Nat × Nat)
  warmBudgetBytes : Nat
  rssBytes : Nat
  usageBytes : Nat
  hardLineBytes : Nat
  underPressure : Bool
  deriving DecidableEq

/-- What a snapshot reads of the world: the iteration order of the map, the settled heap of each
instance (none is 0), and the memory of the process and of the container. -/
structure SnapshotReading (F : Type) where
  order : HashOrder F
  settledHeapBytes : Nat → Nat
  rssBytes : Nat
  usageBytes : Nat

def Instance.isBusy (i : Instance) : Bool := decide (0 < i.inFlight)

/-- `idle_heap_bytes`. -/
def Instance.idleHeapBytes (settledHeapBytes : Nat → Nat) (i : Instance) : Nat :=
  if settledHeapBytes i.id = 0 then i.handle.heapUsedBytes else settledHeapBytes i.id

section Snapshot

set_option linter.unusedSectionVars false

variable {F : Type} [F64 F]

namespace PrefixEntry

variable (e : PrefixEntry F)

def busy : Nat := e.instances.countP Instance.isBusy

def idle : Nat := e.instances.countP Instance.isIdle

def runs : Nat := (e.instances.map Instance.inFlight).sum

def idleHeap (settledHeapBytes : Nat → Nat) : Nat :=
  ((e.instances.filter Instance.isIdle).map (Instance.idleHeapBytes settledHeapBytes)).sum

end PrefixEntry

/-- The prefixes with an instance. -/
def RegistryInner.pooled (s : RegistryInner F) (order : HashOrder F) : List (Σ _ : String, PrefixEntry F) :=
  (order.order s.prefixes.entries).filter fun e => !e.2.instances.isEmpty

/-- `stats`. -/
def RegistryInner.stats (cfg : WarmConfig) (s : RegistryInner F) (r : SnapshotReading F) : RegistrySnapshot where
  oneoffRunning := s.oneoffRunning
  warmBusy := ((s.pooled r.order).map fun e => e.2.busy).sum
  warmRuns := ((s.pooled r.order).map fun e => e.2.runs).sum
  warmIdle := ((s.pooled r.order).map fun e => e.2.idle).sum
  idleHeapBytes := ((s.pooled r.order).map fun e => e.2.idleHeap r.settledHeapBytes).sum
  perPrefix := ((s.pooled r.order).map fun e => (e.1, e.2.idle, e.2.busy)).mergeSort fun a b => decide (a.1 ≤ b.1)
  warmBudgetBytes := cfg.warmBudgetBytes
  rssBytes := r.rssBytes
  usageBytes := r.usageBytes
  hardLineBytes := cfg.hardLineBytes
  underPressure := s.shedding

variable {s : RegistryInner F}

/-! ### The order of the map -/

theorem pooled_perm (order : HashOrder F) :
    (s.pooled order).Perm (s.prefixes.entries.filter fun e => !e.2.instances.isEmpty) :=
  (order.perm _).filter _

/-- What the prefixes add up to is what all entries do: an entry without an instance adds nothing. -/
theorem sum_pooled (order : HashOrder F) {f : PrefixEntry F → Nat} (hf : ∀ e, e.instances = [] → f e = 0) :
    ((s.pooled order).map fun e => f e.2).sum = (s.prefixes.entries.map fun e => f e.2).sum := by
  rw [((pooled_perm order).map _).sum_eq]
  induction s.prefixes.entries with
  | nil => rfl
  | cons e entries ih =>
    by_cases hempty : e.2.instances = []
    · rw [List.filter_cons_of_neg (by simp [hempty]), ih, List.map_cons, List.sum_cons, hf e.2 hempty, Nat.zero_add]
    · rw [List.filter_cons_of_pos (by simpa using hempty), List.map_cons, List.sum_cons, ih, List.map_cons,
        List.sum_cons]

/-- The keys of the listing are in order, each once. -/
theorem perPrefix_sorted (cfg : WarmConfig) (s : RegistryInner F) (r : SnapshotReading F) :
    ((s.stats cfg r).perPrefix.map Prod.fst).Pairwise (· < ·) := by
  have hsorted : (s.stats cfg r).perPrefix.Pairwise fun a b => decide (a.1 ≤ b.1) = true :=
    List.pairwise_mergeSort (fun a b c hab hbc => by
      rw [decide_eq_true_eq] at hab hbc ⊢
      exact hab.trans hbc) (fun a b => by
      rw [Bool.or_eq_true, decide_eq_true_eq, decide_eq_true_eq]
      exact le_total a.1 b.1) _
  have hkeys : ((s.stats cfg r).perPrefix.map Prod.fst).Perm
      ((s.prefixes.entries.filter fun e => !e.2.instances.isEmpty).map Sigma.fst) := by
    refine ((List.mergeSort_perm _ _).map Prod.fst).trans ?_
    rw [List.map_map]
    exact (pooled_perm r.order).map Sigma.fst
  have hnodup : ((s.stats cfg r).perPrefix.map Prod.fst).Nodup :=
    hkeys.nodup_iff.mpr (List.Nodup.sublist (List.filter_sublist.map Sigma.fst) s.prefixes.nodupKeys)
  rw [List.pairwise_map]
  have hne := List.pairwise_map.mp hnodup
  refine (hsorted.and hne).imp fun ⟨hle, hne⟩ => ?_
  exact lt_of_le_of_ne (of_decide_eq_true hle) hne

theorem stats_order (cfg : WarmConfig) (s : RegistryInner F) (r : SnapshotReading F) (order : HashOrder F) :
    s.stats cfg { r with order := order } = s.stats cfg r := by
  have hperm : (s.pooled order).Perm (s.pooled r.order) := (pooled_perm order).trans (pooled_perm r.order).symm
  have hlisted : (s.stats cfg { r with order := order }).perPrefix = (s.stats cfg r).perPrefix := by
    have hsorted := List.pairwise_map.mp (perPrefix_sorted cfg s { r with order := order })
    have hsorted' := List.pairwise_map.mp (perPrefix_sorted cfg s r)
    refine List.Perm.eq_of_pairwise (fun a b _ _ hab hba => ?_) hsorted hsorted' ?_
    · exact absurd (hab.trans hba) (lt_irrefl a.1)
    · exact (List.mergeSort_perm _ _).trans ((hperm.map _).trans (List.mergeSort_perm _ _).symm)
  unfold RegistryInner.stats at hlisted ⊢
  dsimp only at hlisted ⊢
  rw [hlisted, (hperm.map _).sum_eq, (hperm.map _).sum_eq, (hperm.map _).sum_eq, (hperm.map _).sum_eq]

/-! ### The counters and the runs -/

theorem sum_filed (f : Instance → Nat) (entries : List (Σ _ : String, PrefixEntry F)) :
    ((filed entries).map fun r => f r.2).sum = (entries.map fun e => (e.2.instances.map f).sum).sum := by
  induction entries with
  | nil => rfl
  | cons e entries ih =>
    have hfiled : filed (e :: entries) = e.2.instances.map (Prod.mk e.1) ++ filed entries := rfl
    rw [hfiled, List.map_append, List.sum_append, ih, List.map_map, List.map_cons, List.sum_cons]
    rfl

theorem countP_filed (p : Instance → Bool) (entries : List (Σ _ : String, PrefixEntry F)) :
    (filed entries).countP (fun r => p r.2) = (entries.map fun e => e.2.instances.countP p).sum := by
  induction entries with
  | nil => rfl
  | cons e entries ih =>
    have hfiled : filed (e :: entries) = e.2.instances.map (Prod.mk e.1) ++ filed entries := rfl
    rw [hfiled, List.countP_append, ih, List.countP_map, List.map_cons, List.sum_cons]
    rfl

/-- The instances are busy or idle: a dead one serves a run. -/
theorem busy_add_idle {l : List Instance} (hdead : ∀ i ∈ l, i.dead = true → 0 < i.inFlight) :
    l.countP Instance.isBusy + l.countP Instance.isIdle = l.length := by
  rw [List.length_eq_countP_add_countP Instance.isBusy]
  congr 1
  refine List.countP_congr fun i hi => ?_
  unfold Instance.isIdle Instance.isBusy
  cases hd : i.dead with
  | true =>
    have := hdead i hi hd
    simp
    omega
  | false => simp

theorem served_length (l : List ServedRun) :
    (l.filterMap ServedRun.held).length + l.countP ServedRun.isCold = l.length := by
  induction l with
  | nil => rfl
  | cons run l ih =>
    obtain ⟨p, taken⟩ := run
    cases taken with
    | pooled id =>
      have hheld : ServedRun.held ⟨p, .pooled id⟩ = some (p, id) := rfl
      rw [List.filterMap_cons_some hheld, List.countP_cons_of_neg (by simp [ServedRun.isCold]), List.length_cons,
        List.length_cons]
      omega
    | cold =>
      have hheld : ServedRun.held ⟨p, .cold⟩ = none := rfl
      rw [List.filterMap_cons_none hheld, List.countP_cons_of_pos rfl, List.length_cons]
      omega

/-! ### The sums, over the records -/

theorem warmRuns_eq (cfg : WarmConfig) (r : SnapshotReading F) :
    (s.stats cfg r).warmRuns = (s.records.map fun f => f.2.inFlight).sum :=
  (sum_pooled r.order fun _ hempty => by rw [PrefixEntry.runs, hempty]; rfl).trans
    (sum_filed Instance.inFlight _).symm

theorem warmBusy_eq (cfg : WarmConfig) (r : SnapshotReading F) :
    (s.stats cfg r).warmBusy = s.records.countP fun f => f.2.isBusy :=
  (sum_pooled r.order fun _ hempty => by rw [PrefixEntry.busy, hempty]; rfl).trans
    (countP_filed Instance.isBusy _).symm

theorem warmIdle_eq (cfg : WarmConfig) (r : SnapshotReading F) :
    (s.stats cfg r).warmIdle = s.records.countP fun f => f.2.isIdle :=
  (sum_pooled r.order fun _ hempty => by rw [PrefixEntry.idle, hempty]; rfl).trans
    (countP_filed Instance.isIdle _).symm

/-- The listing adds up to what the prefixes do. -/
theorem sum_perPrefix (cfg : WarmConfig) (r : SnapshotReading F) (g : Nat × Nat → Nat) :
    ((s.stats cfg r).perPrefix.map fun x => g x.2).sum =
      ((s.pooled r.order).map fun e => g (e.2.idle, e.2.busy)).sum := by
  have hperm := (List.mergeSort_perm ((s.pooled r.order).map fun e => (e.1, e.2.idle, e.2.busy))
    fun a b => decide (a.1 ≤ b.1)).map fun x => g x.2
  refine hperm.sum_eq.trans ?_
  rw [List.map_map]
  rfl

/-- What is listed is a prefix with an instance. -/
theorem of_mem_perPrefix {cfg : WarmConfig} {r : SnapshotReading F} {x : String × Nat × Nat}
    (hx : x ∈ (s.stats cfg r).perPrefix) :
    ∃ entry ∈ s.prefixes.entries,
      entry.2.instances.length ≠ 0 ∧ x = (entry.1, entry.2.idle, entry.2.busy) := by
  obtain ⟨entry, hentry, rfl⟩ := List.mem_map.mp ((List.mergeSort_perm _ _).mem_iff.mp hx)
  obtain ⟨hmem, hfull⟩ := List.mem_filter.mp ((pooled_perm r.order).mem_iff.mp hentry)
  exact ⟨entry, hmem, by simpa using hfull, rfl⟩

/-! ### The sums, over the books -/

section Balanced

variable {out : List (String × Nat)} {oneoffs : Nat}

theorem nodup_recordKeys (hs : s.Balanced out oneoffs) : (s.records.map fun f => (f.1, f.2.id)).Nodup := by
  have hids := hs.ids
  refine List.Nodup.of_map Prod.snd ?_
  rw [List.map_map]
  exact hids

theorem out_recorded (hs : s.Balanced out oneoffs) : ∀ a ∈ out, a ∈ s.records.map fun f => (f.1, f.2.id) := by
  intro a ha
  obtain ⟨f, hf, heq⟩ := hs.held a ha
  exact List.mem_map.mpr ⟨f, hf, heq⟩

theorem warmRuns_balanced (hs : s.Balanced out oneoffs) (cfg : WarmConfig) (r : SnapshotReading F) :
    (s.stats cfg r).warmRuns = out.length := by
  have hinFlight : ∀ f ∈ s.records, f.2.inFlight = out.count (f.1, f.2.id) := hs.inFlight
  rw [warmRuns_eq, ← Holdings.sum_count (nodup_recordKeys hs) (out_recorded hs), List.map_map]
  exact congrArg List.sum (List.map_congr_left hinFlight)

theorem warmBusy_balanced (hs : s.Balanced out oneoffs) (cfg : WarmConfig) (r : SnapshotReading F) :
    (s.stats cfg r).warmBusy = out.dedup.length := by
  rw [warmBusy_eq, ← Holdings.countP_held (nodup_recordKeys hs) (out_recorded hs), List.countP_map]
  refine List.countP_congr fun f hf => ?_
  change decide (0 < f.2.inFlight) = true ↔ decide (0 < out.count (f.1, f.2.id)) = true
  rw [hs.inFlight f hf]

/-- Every record is counted once. -/
theorem warmBusy_add_warmIdle (hs : s.Balanced out oneoffs) (cfg : WarmConfig) (r : SnapshotReading F) :
    (s.stats cfg r).warmBusy + (s.stats cfg r).warmIdle = s.records.length := by
  have hsplit := busy_add_idle (l := s.records.map Prod.snd) fun i hi hd => by
    obtain ⟨f, hf, rfl⟩ := List.mem_map.mp hi
    exact hs.dead f hf hd
  rw [List.countP_map, List.countP_map, List.length_map] at hsplit
  rw [warmBusy_eq, warmIdle_eq]
  exact hsplit

end Balanced

/-- Between any two critical sections, a snapshot tells what there is: the one-off runs, the runs on
pooled instances and the distinct instances that serve them; its idle count is the counter that the
registry keeps, and with the busy and the one-offs it is the total.  The prefixes are listed in order,
each once and with all its instances, and one with an idle instance can run. -/
theorem stats_truthful (cfg : WarmConfig) (ops : List (EngineOp F)) (r : SnapshotReading F) :
    let e := exec (EngineState.step cfg) (.new F) ops
    let t := e.warm.stats cfg r
    (t.oneoffRunning = e.oneoffs + e.served.countP ServedRun.isCold ∧
        t.warmRuns + e.served.countP ServedRun.isCold = e.served.length ∧ t.warmBusy = e.out.dedup.length) ∧
      (t.warmIdle = e.warm.idleTotal ∧ t.oneoffRunning + t.warmBusy + t.warmIdle = e.warm.total) ∧
      ((t.perPrefix.map Prod.fst).Pairwise (· < ·) ∧
        (t.perPrefix.map fun x => x.2.1).sum = t.warmIdle ∧ (t.perPrefix.map fun x => x.2.2).sum = t.warmBusy) ∧
      ∀ x ∈ t.perPrefix, 0 < x.2.1 + x.2.2 ∧ (0 < x.2.1 → e.prefixAlive x.1 = true) := by
  intro e t
  have hsound : e.Sound := sound_exec cfg ops
  have hbooks := hsound.books
  have hbusy : t.warmBusy = e.out.dedup.length := warmBusy_balanced hbooks cfg r
  have hidle : t.warmIdle = e.warm.records.countP fun f => f.2.isIdle := warmIdle_eq cfg r
  have hall : t.warmBusy + t.warmIdle = e.warm.records.length := warmBusy_add_warmIdle hbooks cfg r
  have hruns : t.warmRuns = e.out.length := warmRuns_balanced hbooks cfg r
  refine ⟨⟨hbooks.oneoff, ?_, hbusy⟩, ⟨?_, ?_⟩,
    ⟨perPrefix_sorted cfg _ r, sum_perPrefix cfg r Prod.fst, sum_perPrefix cfg r Prod.snd⟩, ?_⟩
  · rw [hruns]
    exact served_length e.served
  · rw [hidle]
    exact hbooks.idle.symm
  · have htotal : e.warm.total = e.warm.records.length + e.reserved := hbooks.total
    have honeoff : t.oneoffRunning = e.reserved := hbooks.oneoff
    omega
  · intro x hx
    obtain ⟨entry, hmem, hfull, rfl⟩ := of_mem_perPrefix hx
    have hrecord : ∀ i ∈ entry.2.instances, (entry.1, i) ∈ e.warm.records := fun i hi =>
      List.mem_flatMap.mpr ⟨entry, hmem, List.mem_map_of_mem hi⟩
    refine ⟨?_, fun hpos => ?_⟩
    · have hsplit := busy_add_idle fun i hi hd => hbooks.dead (entry.1, i) (hrecord i hi) hd
      change 0 < entry.2.instances.countP Instance.isIdle + entry.2.instances.countP Instance.isBusy
      omega
    · -- An instance that no run holds is of a prefix that can run.
      obtain ⟨i, hi, hidle⟩ := List.countP_pos_iff.mp hpos
      have hfree : i.inFlight = 0 := of_decide_eq_true (Bool.and_eq_true_iff.mp hidle).1
      by_contra hgone
      have hcard := hsound.held _ (mem_cards.mpr ⟨_, hrecord i hi, rfl⟩) (Bool.eq_false_of_not_eq_true hgone)
      exact (Books.card_held hbooks (hrecord i hi)).mpr hcard hfree

end Snapshot

end Iso4
