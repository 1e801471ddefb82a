/-
The timer records that a run holds outside its isolate heap.

`setTimeout` counts the id map against `maxPendingTimers`.  The heap also keeps the keys of
cleared timers, until they come to its top, and nothing counts those: arming and clearing a
timer leaves a key behind each time.

* `cleared_timers_accumulate` — no multiple of the cap bounds the records;
* `timer_memory` — three times the cap does, while few cleared timers are queued.
-/
import Iso4.TimerHistory

namespace Iso4

open Js

namespace TimerTable

/-- The entries of the id map and those of the heap. -/
def records (t : TimerTable) : Nat := t.entries.keys.length + t.order.entries.length

/-- At most `maxPendingTimers` cleared timers still have a key in the heap. -/
def FewCleared (t : TimerTable) : Prop :=
  t.order.entries.length ≤ t.entries.keys.length + maxPendingTimers

instance (t : TimerTable) : Decidable t.FewCleared := inferInstanceAs (Decidable (_ ≤ _))

end TimerTable

/-- What is asked of a `setTimeout`. -/
def TimerRun.Frugal (w : TimerRun) : TimerOp → Prop
  | .setTimeout _ => w.table.FewCleared
  | _ => True

instance (w : TimerRun) (op : TimerOp) : Decidable (w.Frugal op) := by
  cases op <;> unfold TimerRun.Frugal <;> infer_instance

/-! ### Sizes -/

section Sizes

variable (entries : AList fun _ : Nat => Nat)

theorem length_keys_erase (id : Nat) : (entries.erase id).keys.length ≤ entries.keys.length := by
  rw [AList.keys_erase]
  exact (List.erase_sublist).length_le

theorem length_keys_insert (id deadline : Nat) :
    (entries.insert id deadline).keys.length ≤ entries.keys.length + 1 := by
  rw [AList.keys_insert, List.length_cons]
  exact Nat.succ_le_succ (List.erase_sublist).length_le

end Sizes

/-! ### One call, and a run -/

/-- What is kept along a run: the cap on the id map, and twice the cap on the heap. -/
structure TimerTable.Small (t : TimerTable) : Prop where
  entries : t.entries.keys.length ≤ maxPendingTimers
  order : t.order.entries.length ≤ 2 * maxPendingTimers

theorem TimerTable.Small.less {t t' : TimerTable} (h : t.Small)
    (hentries : t'.entries.keys.length ≤ t.entries.keys.length)
    (horder : t'.order.entries.length ≤ t.order.entries.length) : t'.Small where
  entries := hentries.trans h.entries
  order := horder.trans h.order

/-- The step lemma. -/
theorem step_small (w : TimerRun) (op : TimerOp) (h : w.table.Small) (hop : w.Frugal op) :
    (w.step op).table.Small := by
  cases op with
  | setTimeout deadline =>
    have hfew : w.table.FewCleared := hop
    unfold TimerTable.FewCleared at hfew
    by_cases hfull : w.table.entries.keys.length ≥ maxPendingTimers
    · have hstep : (w.step (.setTimeout deadline)).table = w.table := by
        simp [TimerRun.step, TimerTable.setTimeout, hfull]
      rw [hstep]
      exact h
    · obtain ⟨t, ht, -, -, hentries, horder⟩ := TimerTable.setTimeout_some hfull deadline
      have hstep : (w.step (.setTimeout deadline)).table = t := by simp [TimerRun.step, ht]
      rw [hstep]
      -- The cap leaves room for one more; the heap holds at most the cap beyond the id map.
      constructor
      · have hinsert := length_keys_insert w.table.entries t.lastId deadline
        rw [← hentries] at hinsert
        omega
      · rw [horder, MinHeap.length_push]
        omega
  | clearTimeout argument =>
    cases hid : timerId argument with
    | none =>
      have hstep : (w.step (.clearTimeout argument)).table = w.table := by
        simp [TimerRun.step, hid]
      rw [hstep]
      exact h
    | some id =>
      by_cases hsome : (w.table.entries.lookup id).isSome
      · obtain ⟨t, ht, -, -, hentries, horder⟩ := TimerTable.clearTimeout_some hsome
        have hstep : (w.step (.clearTimeout argument)).table = t := by
          simp [TimerRun.step, hid, ht]
        rw [hstep]
        refine h.less ?_ ?_
        · rw [hentries]
          exact length_keys_erase _ id
        · rw [horder]
      · have hstep : (w.step (.clearTimeout argument)).table = w.table := by
          simp [TimerRun.step, hid, TimerTable.clearTimeout, hsome]
        rw [hstep]
        exact h
  | peekDeadline => exact h.less (le_refl _) (MinHeap.length_prune _ _)
  | popEarliest =>
    show w.table.fire.2.Small
    cases hk : w.table.pruned.peek with
    | none =>
      rw [TimerTable.fire_none hk]
      exact h.less (le_refl _) (MinHeap.length_prune _ _)
    | some k =>
      obtain ⟨-, -, -, hentries, horder⟩ := TimerTable.fire_some hk
      refine h.less ?_ ?_
      · rw [hentries]
        exact length_keys_erase _ k.id
      · rw [horder]
        exact (MinHeap.length_pop _).trans (MinHeap.length_prune _ _)

/-- In every run whose `setTimeout` calls meet at most `maxPendingTimers` cleared timers that
are still queued, the records stay within three times the cap. -/
theorem timer_memory {ops : List TimerOp}
    (h : Execution.Along TimerRun.step TimerRun.Frugal TimerRun.start ops) :
    (TimerRun.after ops).table.records ≤ 3 * maxPendingTimers := by
  have hstart : TimerRun.start.table.Small := by
    constructor
    · exact Nat.zero_le _
    · exact Nat.zero_le _
  have hsmall : (TimerRun.after ops).table.Small :=
    Execution.Along.invariant (I := fun w => w.table.Small)
      (fun w op hw hop => step_small w op hw hop) hstart h
  have hentries := hsmall.entries
  have horder := hsmall.order
  unfold TimerTable.records
  omega

/-! ### Arming and clearing -/

/-- The id that follows `k` others. -/
def idAfter : Nat → Nat
  | 0 => 0
  | k + 1 => max ((idAfter k + 1) % 2 ^ 32) 1

/-- Arm a timer and clear it, `n` times. -/
def armAndClear : Nat → List TimerOp
  | 0 => []
  | n + 1 => armAndClear n ++
      [.setTimeout 1, .clearTimeout (some (.finite false (idAfter (n + 1)) 1))]

theorem idAfter_range (k : Nat) : 1 ≤ idAfter (k + 1) ∧ idAfter (k + 1) ≤ 2 ^ 32 - 1 := by
  show 1 ≤ max ((idAfter k + 1) % 2 ^ 32) 1 ∧ max ((idAfter k + 1) % 2 ^ 32) 1 ≤ 2 ^ 32 - 1
  omega

theorem timerId_idAfter (k : Nat) :
    timerId (some (.finite false (idAfter (k + 1)) 1)) = some (idAfter (k + 1)) := by
  have hrange := idAfter_range k
  simp only [timerId, Nat.mod_one, Nat.div_one, true_and]
  exact if_pos hrange

theorem erase_insert_self (id deadline : Nat) :
    ((∅ : AList fun _ : Nat => Nat).insert id deadline).erase id = ∅ := by
  refine AList.ext ?_
  show ((∅ : AList fun _ : Nat => Nat).insert id deadline).entries.kerase id = []
  rw [AList.entries_insert]
  simp

/-- The id map is empty again, and the heap has one key for each timer. -/
theorem armAndClear_left (n : Nat) :
    (TimerRun.after (armAndClear n)).table.lastId = idAfter n ∧
      (TimerRun.after (armAndClear n)).table.entries = ∅ ∧
      (TimerRun.after (armAndClear n)).table.order.entries.length = n := by
  induction n with
  | zero => exact ⟨rfl, rfl, rfl⟩
  | succ n ih =>
    have hafter : TimerRun.after (armAndClear (n + 1)) =
        ((TimerRun.after (armAndClear n)).step (.setTimeout 1)).step
          (.clearTimeout (some (.finite false (idAfter (n + 1)) 1))) :=
      Execution.exec_append _ (armAndClear n) _
    rw [hafter]
    generalize TimerRun.after (armAndClear n) = w at ih
    obtain ⟨hlast, hentries, horder⟩ := ih
    obtain ⟨t, ht, hid, -, hmap, hheap⟩ :=
      TimerTable.setTimeout_some (t := w.table) (by simp [hentries, maxPendingTimers]) 1
    have harm : (w.step (.setTimeout 1)).table = t := by simp [TimerRun.step, ht]
    rw [hlast] at hid
    change t.lastId = idAfter (n + 1) at hid
    rw [hid, hentries] at hmap
    have hlength : t.order.entries.length = n + 1 := by
      rw [hheap, MinHeap.length_push, horder]
    have hsome : (t.entries.lookup (idAfter (n + 1))).isSome := by
      rw [hmap, AList.lookup_insert]
      rfl
    obtain ⟨t', ht', hlast', -, hentries', horder'⟩ := TimerTable.clearTimeout_some hsome
    have hclear : ((w.step (.setTimeout 1)).step
        (.clearTimeout (some (.finite false (idAfter (n + 1)) 1)))).table = t' := by
      generalize w.step (.setTimeout 1) = v at harm
      subst harm
      simp [TimerRun.step, timerId_idAfter, ht']
    rw [hclear]
    refine ⟨hlast'.trans hid, ?_, ?_⟩
    · rw [hentries', hmap]
      exact erase_insert_self _ 1
    · rw [horder', hlength]

theorem armAndClear_calls (n : Nat) :
    ∀ op ∈ armAndClear n, (∃ d, op = .setTimeout d) ∨ ∃ argument, op = .clearTimeout argument := by
  induction n with
  | zero => simp [armAndClear]
  | succ n ih =>
    intro op hop
    simp only [armAndClear, List.mem_append, List.mem_cons, List.not_mem_nil, or_false] at hop
    rcases hop with hop | rfl | rfl
    · exact ih op hop
    · exact Or.inl ⟨_, rfl⟩
    · exact Or.inr ⟨_, rfl⟩

/-- Arming and clearing one timer over and over leaves a record for each, beyond any multiple
of the cap. -/
theorem cleared_timers_accumulate :
    ¬ ∃ c, ∀ ops : List TimerOp,
      (∀ op ∈ ops, (∃ d, op = .setTimeout d) ∨ ∃ argument, op = .clearTimeout argument) →
      (TimerRun.after ops).table.records ≤ c * maxPendingTimers := by
  rintro ⟨c, hbound⟩
  have hle := hbound (armAndClear (c * maxPendingTimers + 1)) (armAndClear_calls _)
  have hlength := (armAndClear_left (c * maxPendingTimers + 1)).2.2
  unfold TimerTable.records at hle
  omega

/-- Two timers armed and one of them cleared. -/
theorem timer_memory_pair :
    let ops := [.setTimeout 5, .setTimeout 3, .clearTimeout (some (.finite false 2 1))]
    Execution.Along TimerRun.step TimerRun.Frugal TimerRun.start ops ∧
      (TimerRun.after ops).table.records ≤ 3 * maxPendingTimers := by
  intro ops
  have h : Execution.Along TimerRun.step TimerRun.Frugal TimerRun.start ops := by decide +kernel
  exact ⟨h, timer_memory h⟩

end Iso4
