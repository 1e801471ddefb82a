/-
Priority queues with the least element on top.

A heap is kept as the ascending list of its entries.  Beside `push`, `peek`
and `pop` there is `prune`, the loop of a lazily deleted heap: pop entries off
the top while they are stale.

* `mem_prune` — pruning loses no valid entry;
* `peek_prune_le` — the pruned top is at most every valid entry;
* `peek_prune_none` — an empty pruned heap had no valid entry.
-/
import Mathlib.Data.List.Sort
import Mathlib.Order.Defs.LinearOrder

/-- A priority queue, as the ascending list of its entries. -/
structure MinHeap (α : Type*) [LinearOrder α] where
  entries : List α
  sorted : entries.Pairwise (· ≤ ·)

namespace MinHeap

variable {α : Type*} [LinearOrder α]

instance : Membership α (MinHeap α) := ⟨fun h a => a ∈ h.entries⟩

theorem mem_def {a : α} {h : MinHeap α} : a ∈ h ↔ a ∈ h.entries := Iff.rfl

/-- The heap without entries. -/
def empty : MinHeap α := ⟨[], List.Pairwise.nil⟩

/-- Add an entry. -/
def push (h : MinHeap α) (a : α) : MinHeap α :=
  ⟨h.entries.orderedInsert (· ≤ ·) a, h.sorted.orderedInsert a h.entries⟩

/-- The least entry. -/
def peek (h : MinHeap α) : Option α := h.entries.head?

/-- Drop the least entry. -/
def pop (h : MinHeap α) : MinHeap α := ⟨h.entries.tail, h.sorted.tail⟩

/-- Drop entries off the top while they are stale. -/
def prune (valid : α → Bool) (h : MinHeap α) : MinHeap α :=
  ⟨h.entries.dropWhile fun a => !valid a,
    h.sorted.sublist (List.dropWhile_sublist _)⟩

@[simp] theorem not_mem_empty (a : α) : a ∉ (empty : MinHeap α) := List.not_mem_nil

@[simp] theorem mem_push {a b : α} {h : MinHeap α} : a ∈ h.push b ↔ a = b ∨ a ∈ h :=
  List.mem_orderedInsert (· ≤ ·)

theorem mem_of_peek {a : α} {h : MinHeap α} (hp : h.peek = some a) : a ∈ h :=
  List.mem_of_mem_head? hp

theorem peek_le {a b : α} {h : MinHeap α} (hp : h.peek = some a) (hb : b ∈ h) : a ≤ b := by
  rcases h with ⟨_ | ⟨c, l⟩, hs⟩
  · simp [peek] at hp
  · obtain rfl : c = a := by simpa [peek] using hp
    rcases List.mem_cons.mp hb with rfl | hb
    · exact le_refl _
    · exact List.rel_of_pairwise_cons hs hb

/-- Popping loses at most the top. -/
theorem mem_pop {a b : α} {h : MinHeap α} (hp : h.peek = some a) (hb : b ∈ h) (hne : b ≠ a) :
    b ∈ h.pop := by
  rcases h with ⟨_ | ⟨c, l⟩, hs⟩
  · simp [peek] at hp
  · obtain rfl : c = a := by simpa [peek] using hp
    exact (List.mem_cons.mp hb).resolve_left hne

theorem mem_of_mem_pop {a : α} {h : MinHeap α} (ha : a ∈ h.pop) : a ∈ h :=
  List.mem_of_mem_tail ha

theorem mem_of_mem_prune {valid : α → Bool} {a : α} {h : MinHeap α} (ha : a ∈ h.prune valid) :
    a ∈ h :=
  (List.dropWhile_sublist _).subset ha

theorem length_push (h : MinHeap α) (a : α) :
    (h.push a).entries.length = h.entries.length + 1 := List.orderedInsert_length _ _ _

theorem length_prune (valid : α → Bool) (h : MinHeap α) :
    (h.prune valid).entries.length ≤ h.entries.length :=
  (List.dropWhile_sublist _).length_le

theorem length_pop (h : MinHeap α) : h.pop.entries.length ≤ h.entries.length :=
  (List.tail_sublist _).length_le

/-- Pruning loses no valid entry. -/
theorem mem_prune {valid : α → Bool} {a : α} {h : MinHeap α} (ha : a ∈ h) (hv : valid a = true) :
    a ∈ h.prune valid := by
  rcases h with ⟨l, hs⟩
  change a ∈ l.dropWhile fun b => !valid b
  change a ∈ l at ha
  clear hs
  induction l with
  | nil => exact ha
  | cons b l ih =>
    rw [List.dropWhile_cons]
    by_cases hb : (!valid b) = true
    · rw [if_pos hb]
      rcases List.mem_cons.mp ha with rfl | ha
      · simp [hv] at hb
      · exact ih ha
    · rw [if_neg hb]
      exact ha

/-- What a pruned heap shows on top is valid. -/
theorem valid_of_peek_prune {valid : α → Bool} {a : α} {h : MinHeap α}
    (hp : (h.prune valid).peek = some a) : valid a = true := by
  have := List.head?_dropWhile_not (fun b => !valid b) h.entries
  rw [show (h.entries.dropWhile fun b => !valid b).head? = some a from hp] at this
  simpa using this

/-- The pruned top is at most every valid entry. -/
theorem peek_prune_le {valid : α → Bool} {a b : α} {h : MinHeap α}
    (hp : (h.prune valid).peek = some a) (hb : b ∈ h) (hv : valid b = true) : a ≤ b :=
  peek_le hp (mem_prune hb hv)

/-- A heap that prunes away had no valid entry. -/
theorem peek_prune_none {valid : α → Bool} {b : α} {h : MinHeap α}
    (hp : (h.prune valid).peek = none) (hb : b ∈ h) : valid b = false := by
  by_contra hv
  have hmem : b ∈ (h.prune valid).entries := mem_prune hb (by simpa using hv)
  rw [peek, List.head?_eq_none_iff] at hp
  rw [hp] at hmem
  exact List.not_mem_nil hmem

end MinHeap
