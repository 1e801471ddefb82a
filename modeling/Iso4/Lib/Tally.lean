/-
How often a number occurs in the entries of a list.

`tally f l n` counts `n` in what `f` reads off the entries of `l`, and each way to change an entry
of the list changes it by what is read off that entry.

* `tally_set`, `tally_modify`, `tally_eraseIdx` — one entry changed or taken out;
* `tally_append` — entries put at the end.
-/
import Mathlib.Data.List.Basic
import Mathlib.Data.List.Count

namespace Tally

variable {α : Type*} {f : α → List Nat}

def tally (f : α → List Nat) (l : List α) (n : Nat) : Nat := (l.flatMap f).count n

@[simp] theorem tally_nil (n : Nat) : tally f [] n = 0 := rfl

@[simp] theorem tally_cons (x : α) (l : List α) (n : Nat) :
    tally f (x :: l) n = (f x).count n + tally f l n := by
  simp [tally]

@[simp] theorem tally_append (l m : List α) (n : Nat) :
    tally f (l ++ m) n = tally f l n + tally f m n := by
  simp [tally]

theorem tally_modify {l : List α} {i : Nat} {x : α} (h : l[i]? = some x) (g : α → α) (n : Nat) :
    tally f (l.modify i g) n + (f x).count n = tally f l n + (f (g x)).count n := by
  induction l generalizing i with
  | nil => simp at h
  | cons y l ih =>
    cases i with
    | zero =>
      obtain rfl : y = x := by simpa using h
      simp only [List.modify_zero_cons, tally_cons]
      omega
    | succ i =>
      have hrest := ih (i := i) (by simpa using h)
      simp only [List.modify_succ_cons, tally_cons]
      omega

theorem tally_modify_none {l : List α} {i : Nat} (h : l[i]? = none) (g : α → α) (n : Nat) :
    tally f (l.modify i g) n = tally f l n := by
  rw [List.modify_eq_self (by simpa using h)]

theorem tally_set {l : List α} {i : Nat} {x : α} (h : l[i]? = some x) (y : α) (n : Nat) :
    tally f (l.set i y) n + (f x).count n = tally f l n + (f y).count n := by
  rw [List.set_eq_modify]
  exact tally_modify h _ n

theorem tally_eraseIdx {l : List α} {i : Nat} {x : α} (h : l[i]? = some x) (n : Nat) :
    tally f (l.eraseIdx i) n + (f x).count n = tally f l n := by
  induction l generalizing i with
  | nil => simp at h
  | cons y l ih =>
    cases i with
    | zero =>
      obtain rfl : y = x := by simpa using h
      simp only [List.eraseIdx_cons_zero, tally_cons]
      omega
    | succ i =>
      have hrest := ih (i := i) (by simpa using h)
      simp only [List.eraseIdx_cons_succ, tally_cons]
      omega

end Tally
