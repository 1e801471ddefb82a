/-
Lists of names with values, in order, a name in it any number of times.

* `add`, `remove`, `replace` — at the end, every entry of a name, and the first entry of a name
  with the others dropped;
* `values`, `has`, `names` — what a name has, and the names, each once;
* `interleave` — the same list flat, a name before each value.
-/
import Mathlib.Data.List.Basic
import Mathlib.Tactic.Common

namespace NameValue

section

variable {α β : Type} [DecidableEq α]

def add (l : List (α × β)) (n : α) (v : β) : List (α × β) := l ++ [(n, v)]

def remove (l : List (α × β)) (n : α) : List (α × β) := l.filter fun e => e.1 ≠ n

/-- The first entry of the name takes the value, and the others go. -/
def substitute (n : α) (v : β) : List (α × β) → List (α × β)
  | [] => []
  | e :: l => if e.1 = n then (n, v) :: remove l n else e :: substitute n v l

/-- Whether the name has an entry. -/
def has (l : List (α × β)) (n : α) : Bool := l.any fun e => e.1 = n

def replace (l : List (α × β)) (n : α) (v : β) : List (α × β) :=
  if has l n then substitute n v l else add l n v

/-- The values of a name, in order. -/
def values (l : List (α × β)) (n : α) : List β := (l.filter fun e => e.1 = n).map Prod.snd

@[simp] theorem remove_nil (n : α) : remove ([] : List (α × β)) n = [] := rfl

theorem remove_cons_self {e : α × β} {n : α} (h : e.1 = n) (l : List (α × β)) :
    remove (e :: l) n = remove l n := by
  rw [remove, List.filter_cons_of_neg (by simp [h]), remove]

theorem remove_cons_of_ne {e : α × β} {n : α} (h : e.1 ≠ n) (l : List (α × β)) :
    remove (e :: l) n = e :: remove l n := by
  rw [remove, List.filter_cons_of_pos (by simp [h]), remove]

theorem remove_append (l l' : List (α × β)) (n : α) :
    remove (l ++ l') n = remove l n ++ remove l' n := by
  rw [remove, List.filter_append, remove, remove]

theorem has_cons (e : α × β) (l : List (α × β)) (n : α) :
    has (e :: l) n = (decide (e.1 = n) || has l n) := rfl

theorem substitute_eq_self {l : List (α × β)} {n : α} {v : β} (h : has l n = false) :
    substitute n v l = l := by
  induction l with
  | nil => rfl
  | cons e l ih =>
    rw [has_cons, Bool.or_eq_false_iff, decide_eq_false_iff_not] at h
    rw [substitute, if_neg h.1, ih h.2]

theorem mem_of_mem_remove {l : List (α × β)} {n : α} {e : α × β} (h : e ∈ remove l n) : e ∈ l :=
  (List.mem_filter.mp h).1

theorem mem_of_mem_substitute {l : List (α × β)} {n : α} {v : β} {e : α × β}
    (h : e ∈ substitute n v l) : e ∈ l ∨ e = (n, v) := by
  induction l with
  | nil => simp [substitute] at h
  | cons e' l ih =>
    rw [substitute] at h
    split at h
    · obtain rfl | h := List.mem_cons.mp h
      · exact Or.inr rfl
      · exact Or.inl (List.mem_cons_of_mem _ (mem_of_mem_remove h))
    · obtain rfl | h := List.mem_cons.mp h
      · exact Or.inl List.mem_cons_self
      · exact (ih h).imp_left (List.mem_cons_of_mem _)

/-- A replacement brings in nothing but its own entry. -/
theorem mem_of_mem_replace {l : List (α × β)} {n : α} {v : β} {e : α × β}
    (h : e ∈ replace l n v) : e ∈ l ∨ e = (n, v) := by
  unfold replace at h
  split at h
  · exact mem_of_mem_substitute h
  · obtain h | h := List.mem_append.mp h
    · exact Or.inl h
    · exact Or.inr (List.mem_singleton.mp h)

theorem mem_substitute {l : List (α × β)} {n : α} (h : has l n = true) (v : β) :
    (n, v) ∈ substitute n v l := by
  induction l with
  | nil => cases h
  | cons e l ih =>
    rw [substitute]
    by_cases he : e.1 = n
    · rw [if_pos he]
      exact List.mem_cons_self
    · rw [has_cons, decide_eq_false he, Bool.false_or] at h
      rw [if_neg he]
      exact List.mem_cons_of_mem _ (ih h)

theorem mem_replace (l : List (α × β)) (n : α) (v : β) : (n, v) ∈ replace l n v := by
  unfold replace
  split
  · next h => exact mem_substitute h v
  · exact List.mem_append_right _ (List.mem_singleton_self _)

theorem values_cons (e : α × β) (l : List (α × β)) (n : α) :
    values (e :: l) n = if e.1 = n then e.2 :: values l n else values l n := by
  by_cases h : e.1 = n
  · rw [values, List.filter_cons_of_pos (by simp [h]), if_pos h, values, List.map_cons]
  · rw [values, List.filter_cons_of_neg (by simp [h]), if_neg h, values]

/-- The names, each once, in the order of their first entries, after those there are. -/
def namesAfter (ns : List α) : List (α × β) → List α
  | [] => ns
  | e :: l => namesAfter (if e.1 ∈ ns then ns else ns ++ [e.1]) l

def names (l : List (α × β)) : List α := namesAfter [] l

theorem nodup_namesAfter {ns : List α} (h : ns.Nodup) (l : List (α × β)) :
    (namesAfter ns l).Nodup := by
  induction l generalizing ns with
  | nil => exact h
  | cons e l ih =>
    refine ih ?_
    split
    · exact h
    · next hnot =>
      rw [List.nodup_append]
      refine ⟨h, List.pairwise_singleton _ _, ?_⟩
      intro a ha b hb hab
      rw [List.mem_singleton] at hb
      exact hnot (hb ▸ hab ▸ ha)

theorem mem_namesAfter {ns : List α} {n : α} (l : List (α × β)) :
    n ∈ namesAfter ns l ↔ n ∈ ns ∨ has l n = true := by
  induction l generalizing ns with
  | nil => simp [namesAfter, has]
  | cons e l ih =>
    rw [namesAfter, ih, has_cons, Bool.or_eq_true, decide_eq_true_eq]
    split
    · next hmem =>
      constructor
      · rintro (h | h)
        · exact Or.inl h
        · exact Or.inr (Or.inr h)
      · rintro (h | rfl | h)
        · exact Or.inl h
        · exact Or.inl hmem
        · exact Or.inr h
    · rw [List.mem_append, List.mem_singleton, or_assoc, eq_comm]

/-- The names, each once. -/
theorem nodup_names (l : List (α × β)) : (names l).Nodup := nodup_namesAfter List.nodup_nil l

theorem mem_names {l : List (α × β)} {n : α} : n ∈ names l ↔ has l n = true := by
  rw [names, mem_namesAfter]
  simp

/-! ### The flat list -/

/-- A name before each value. -/
def interleave (l : List (α × α)) : List α := l.flatMap fun e => [e.1, e.2]

omit [DecidableEq α] in
@[simp] theorem interleave_nil : interleave ([] : List (α × α)) = [] := rfl

omit [DecidableEq α] in
@[simp] theorem interleave_cons (e : α × α) (l : List (α × α)) :
    interleave (e :: l) = e.1 :: e.2 :: interleave l := rfl

omit [DecidableEq α] in
theorem interleave_append (l l' : List (α × α)) :
    interleave (l ++ l') = interleave l ++ interleave l' := List.flatMap_append

omit [DecidableEq α] in
@[simp] theorem length_interleave (l : List (α × α)) : (interleave l).length = 2 * l.length := by
  induction l with
  | nil => rfl
  | cons e l ih =>
    rw [interleave_cons, List.length_cons, List.length_cons, ih, List.length_cons]
    omega

end

end NameValue
