/-
Guest timers (`crates/core/src/v8/timers.rs`): a run's pending `setTimeout`
registrations, as an id map beside a lazily deleted fire-order heap.

The heap carries every pending timer (`TimerTable.queued`), so the deadline
`peekDeadline` reports is the least of them: `peekDeadline_le` and
`peekDeadline_none`.  Pruning cleared heap tops changes no answer, so looking
at the earliest timer is a function here and leaves the table as it is.
-/
import Iso4.Types
import Iso4.Lib.MinHeap
import Mathlib.Data.List.AList
import Mathlib.Data.Prod.Lex
import Mathlib.Algebra.Ring.Nat

namespace Iso4

/-- Cap on pending timers per run. -/
def maxPendingTimers : Nat := 10000

/-- A position in fire order: deadline, then creation order, then the id. -/
abbrev TimerKey := ℕ ×ₗ ℕ ×ₗ ℕ

namespace TimerKey

def mk (deadline seq id : Nat) : TimerKey := toLex (deadline, toLex (seq, id))

def deadline (k : TimerKey) : Nat := (ofLex k).1

def id (k : TimerKey) : Nat := (ofLex (ofLex k).2).2

@[simp] theorem deadline_mk (d s i : Nat) : (mk d s i).deadline = d := rfl

@[simp] theorem id_mk (d s i : Nat) : (mk d s i).id = i := rfl

theorem deadline_le {k l : TimerKey} (h : k ≤ l) : k.deadline ≤ l.deadline := by
  rcases Prod.Lex.le_iff.mp h with h | ⟨h, -⟩
  · exact h.le
  · exact h.le

end TimerKey

/-- A run's pending timers: id map and fire-order heap. -/
structure TimerTable where
  lastId : Nat
  nextSeq : Nat
  /-- The pending timers' deadlines by id. -/
  entries : AList fun _ : Nat => Nat
  order : MinHeap TimerKey
  queued : ∀ id d, entries.lookup id = some d → ∃ seq, TimerKey.mk d seq id ∈ order

namespace TimerTable

/-- No timer was ever armed. -/
def empty : TimerTable where
  lastId := 0
  nextSeq := 0
  entries := ∅
  order := MinHeap.empty
  queued := by
    intro id d h
    rw [AList.lookup_empty] at h
    cases h

/-- Whether a heap entry still stands for a pending timer; the deadline match
also guards id reuse. -/
def pending (t : TimerTable) (k : TimerKey) : Bool := t.entries.lookup k.id == some k.deadline

/-- The fire-order heap without cleared tops. -/
def pruned (t : TimerTable) : MinHeap TimerKey := t.order.prune t.pending

/-- The earliest pending deadline. -/
def peekDeadline (t : TimerTable) : Option Nat := t.pruned.peek.map TimerKey.deadline

/-- Remove the earliest pending timer (a fire). -/
def popEarliest (t : TimerTable) : Option TimerTable :=
  match hp : t.pruned.peek with
  | none => none
  | some k => some
    { t with
      entries := t.entries.erase k.id
      order := t.pruned.pop
      queued := by
        intro id d h
        have hne : id ≠ k.id := by
          rintro rfl
          rw [AList.lookup_erase] at h
          cases h
        rw [AList.lookup_erase_ne hne] at h
        obtain ⟨seq, hmem⟩ := t.queued id d h
        refine ⟨seq, MinHeap.mem_pop hp (MinHeap.mem_prune hmem ?_) ?_⟩
        · simp [pending, h]
        · rintro rfl
          exact hne rfl }

/-- `setTimeout` from the table's side; `none` when too many are pending. -/
def setTimeout (t : TimerTable) (deadline : Nat) : Option TimerTable :=
  if t.entries.keys.length ≥ maxPendingTimers then none
  else
    -- `wrapping_add(1).max(1)` on a `u32`: ids start at 1.
    let id := max ((t.lastId + 1) % 2 ^ 32) 1
    some
      { lastId := id
        nextSeq := t.nextSeq + 1
        entries := t.entries.insert id deadline
        order := t.order.push (TimerKey.mk deadline t.nextSeq id)
        queued := by
          intro id' d h
          by_cases hid : id' = id
          · subst hid
            rw [AList.lookup_insert, Option.some.injEq] at h
            subst h
            exact ⟨t.nextSeq, MinHeap.mem_push.mpr (Or.inl rfl)⟩
          · rw [AList.lookup_insert_ne hid] at h
            obtain ⟨seq, hmem⟩ := t.queued id' d h
            exact ⟨seq, MinHeap.mem_push.mpr (Or.inr hmem)⟩ }

/-- `clearTimeout` from the table's side; `none` when nothing was removed. -/
def clearTimeout (t : TimerTable) (id : Nat) : Option TimerTable :=
  if (t.entries.lookup id).isSome then
    some
      { t with
        entries := t.entries.erase id
        queued := by
          intro id' d h
          by_cases hid : id' = id
          · subst hid
            rw [AList.lookup_erase] at h
            cases h
          · rw [AList.lookup_erase_ne hid] at h
            exact t.queued id' d h }
  else none

/-- No pending timer is earlier than the reported deadline. -/
theorem peekDeadline_le {t : TimerTable} {at' id d : Nat} (hp : t.peekDeadline = some at')
    (h : t.entries.lookup id = some d) : at' ≤ d := by
  obtain ⟨k, hk, rfl⟩ := Option.map_eq_some_iff.mp hp
  obtain ⟨seq, hmem⟩ := t.queued id d h
  have hle : k ≤ TimerKey.mk d seq id := MinHeap.peek_prune_le hk hmem (by simp [pending, h])
  exact TimerKey.deadline_le hle

/-- No deadline is reported only when no timer is pending. -/
theorem peekDeadline_none {t : TimerTable} (hp : t.peekDeadline = none) (id : Nat) :
    t.entries.lookup id = none := by
  cases h : t.entries.lookup id with
  | none => rfl
  | some d =>
    obtain ⟨seq, hmem⟩ := t.queued id d h
    have hv := MinHeap.peek_prune_none (Option.map_eq_none_iff.mp hp) hmem
    simp [pending, h] at hv

/-- A reported deadline is there to be fired. -/
theorem popEarliest_isSome {t : TimerTable} {at' : Nat} (hp : t.peekDeadline = some at') :
    t.popEarliest.isSome = true := by
  obtain ⟨k, hk, -⟩ := Option.map_eq_some_iff.mp hp
  unfold popEarliest
  split
  · next h => rw [h] at hk; cases hk
  · rfl

end TimerTable

end Iso4
