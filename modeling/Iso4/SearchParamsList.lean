/-
The loops of `URLSearchParams` over its list.

* `WebTypes.Pairs.delete_eq` — walking backwards and splicing removes the entries of a name;
* `WebTypes.Pairs.set_eq` — walking forwards sets the first entry of a name and removes the others.
-/
import Iso4.SearchParams
import Iso4.Lib.NameValue
import Mathlib.Data.List.Induction

namespace Iso4

namespace WebTypes

namespace Pairs

open NameValue (remove substitute)

theorem deleteFrom_eq (name : Units) (front back : Pairs) :
    deleteFrom name front.length (front ++ back) = remove front name ++ back := by
  induction front using List.reverseRecOn generalizing back with
  | nil => rfl
  | append_singleton front kv ih =>
    have hget : (front ++ [kv] ++ back)[front.length]? = some kv := by
      rw [List.append_assoc, List.getElem?_append_right (Nat.le_refl _), Nat.sub_self]
      rfl
    have herase : (front ++ [kv] ++ back).eraseIdx front.length = front ++ back := by
      rw [List.append_assoc, List.eraseIdx_append_of_length_le (Nat.le_refl _), Nat.sub_self]
      rfl
    rw [List.length_append, List.length_singleton, deleteFrom, hget, Option.map_some, herase,
      NameValue.remove_append]
    by_cases h : kv.1 = name
    · rw [if_pos (congrArg some h), ih, NameValue.remove_cons_self h, NameValue.remove_nil,
        List.append_nil]
    · rw [if_neg (fun hsome => h (Option.some.inj hsome)), List.append_assoc, ih,
        NameValue.remove_cons_of_ne h, NameValue.remove_nil, List.append_assoc]

theorem delete_eq (p : Pairs) (name : Units) : p.delete name = remove p name := by
  have hloop := deleteFrom_eq name p []
  rwa [List.append_nil, List.append_nil] at hloop

/-- The entries before `i` stay; of the others the loop makes what is left of the job. -/
theorem setFrom_eq {fuel : Nat} {back : Pairs} (h : back.length ≤ fuel) (name value : Units)
    (found : Bool) (front : Pairs) :
    setFrom name value fuel front.length found (front ++ back) =
      (found || NameValue.has back name,
        front ++ if found then remove back name else substitute name value back) := by
  induction fuel generalizing back found front with
  | zero =>
    obtain rfl : back = [] := List.eq_nil_of_length_eq_zero (by omega)
    cases found <;> rfl
  | succ fuel ih =>
    cases back with
    | nil =>
      rw [setFrom, List.append_nil, List.getElem?_eq_none (Nat.le_refl _)]
      cases found <;> simp [NameValue.has, substitute]
    | cons kv back =>
      rw [List.length_cons] at h
      have hget : (front ++ kv :: back)[front.length]? = some kv := by
        rw [List.getElem?_append_right (Nat.le_refl _), Nat.sub_self]
        rfl
      have hlen : ∀ e : Units × Units, front.length + 1 = (front ++ [e]).length := by simp
      have hcons : ∀ e : Units × Units, front ++ e :: back = front ++ [e] ++ back := by simp
      rw [setFrom, hget]
      by_cases hname : kv.1 = name
      · have herase : (front ++ kv :: back).eraseIdx front.length = front ++ back := by
          rw [List.eraseIdx_append_of_length_le (Nat.le_refl _), Nat.sub_self]
          rfl
        have hset : List.set (front ++ kv :: back) front.length (kv.1, value) =
            front ++ (kv.1, value) :: back := by
          rw [List.set_append_right _ _ (Nat.le_refl _), Nat.sub_self]
          rfl
        simp only [if_neg (not_not.mpr hname)]
        cases found with
        | false =>
          rw [if_pos rfl, hset, hcons, hlen (kv.1, value), ih (by omega), NameValue.has_cons,
            decide_eq_true hname, substitute, if_pos hname, hname]
          simp
        | true =>
          rw [if_neg (by simp), herase, ih (by omega), NameValue.has_cons,
            NameValue.remove_cons_self hname]
          simp
      · simp only [if_pos hname]
        rw [hcons, hlen kv, ih (by omega), NameValue.has_cons, decide_eq_false hname,
          Bool.false_or, substitute, if_neg hname, NameValue.remove_cons_of_ne hname]
        cases found <;> simp

theorem set_eq (p : Pairs) (name value : Units) :
    p.set name value = NameValue.replace p name value := by
  have hloop := setFrom_eq (Nat.le_refl p.length) name value false []
  rw [List.nil_append, List.length_nil, Bool.false_or, List.nil_append] at hloop
  rw [set, hloop, NameValue.replace]
  cases hhas : NameValue.has p name with
  | true => simp
  | false =>
    have hsame : substitute name value p = p := NameValue.substitute_eq_self hhas
    simp [hsame, NameValue.add]

end Pairs

end WebTypes

end Iso4
