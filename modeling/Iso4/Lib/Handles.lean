/-
Records that stay in a list, and a table that finds the live ones by an id.

A record is named by its place in the list, its handle.  The table maps an id to a handle;
the list also keeps the records that have left the table.

* `Lists` — a list has the handles of the live records, `Lists.length` how many there are;
* `Indexes` — the table has the live records, each under its own id;
* `insert`, `push`, `concat`, `modify`, `erase`, `remove`, `clear`, `dead` — the ways both change.
-/
import Mathlib.Data.List.AList
import Mathlib.Data.List.Count
import Mathlib.Data.List.Nodup
import Mathlib.Data.List.Perm.Basic
import Mathlib.Data.List.Range

namespace Handles

variable {α : Type*}

/-! ### Records changed by their handles -/

def modifyAll (l : List α) (hs : List Nat) (f : α → α) : List α :=
  hs.foldl (fun l h => l.modify h f) l

theorem getElem?_modifyAll {hs : List Nat} (hnodup : hs.Nodup) (l : List α) (f : α → α) (i : Nat) :
    (modifyAll l hs f)[i]? = if i ∈ hs then l[i]?.map f else l[i]? := by
  induction hs generalizing l with
  | nil => simp [modifyAll]
  | cons h hs ih =>
    obtain ⟨hnotMem, hrest⟩ := List.nodup_cons.mp hnodup
    show (modifyAll (l.modify h f) hs f)[i]? = _
    rw [ih hrest, List.getElem?_modify]
    by_cases hi : h = i
    · subst hi
      simp [hnotMem]
    · simp [hi, Ne.symm hi]

/-- A record of a list with one more at its end. -/
theorem getElem?_concat {l : List α} {x y : α} {i : Nat} (h : (l ++ [x])[i]? = some y) :
    l[i]? = some y ∨ i = l.length ∧ y = x := by
  by_cases hi : i < l.length
  · rw [List.getElem?_append_left hi] at h
    exact Or.inl h
  · have hle := (List.getElem?_eq_some_iff.mp h).1
    rw [List.length_append, List.length_singleton] at hle
    obtain rfl : i = l.length := by omega
    rw [List.getElem?_concat_length] at h
    exact Or.inr ⟨rfl, (Option.some.inj h).symm⟩

theorem countP_modify (p : α → Bool) {l : List α} {i : Nat} {x : α} (h : l[i]? = some x)
    (f : α → α) :
    (l.modify i f).countP p + (if p x then 1 else 0) = l.countP p + if p (f x) then 1 else 0 := by
  induction l generalizing i with
  | nil => simp at h
  | cons y l ih =>
    cases i with
    | zero =>
      obtain rfl : y = x := by simpa using h
      simp only [List.modify_zero_cons, List.countP_cons]
      omega
    | succ i =>
      have hrest := ih (i := i) (by simpa using h)
      simp only [List.modify_succ_cons, List.countP_cons]
      omega

/-- Records of two kinds, counted apart. -/
theorem countP_add {p q r : α → Bool} {l : List α}
    (h : ∀ x ∈ l, r x = (p x || q x) ∧ (p x && q x) = false) :
    l.countP r = l.countP p + l.countP q := by
  induction l with
  | nil => rfl
  | cons x l ih =>
    obtain ⟨hr, hboth⟩ := h x List.mem_cons_self
    have hrest := ih fun y hy => h y (List.mem_cons_of_mem _ hy)
    simp only [List.countP_cons, hr]
    cases hp : p x with
    | true =>
      have hq : q x = false := by simpa [hp] using hboth
      simp only [hq, Bool.or_false, if_true, Bool.false_eq_true, if_false]
      omega
    | false =>
      simp only [Bool.false_or, Bool.false_eq_true, if_false]
      omega

theorem length_filter_range (p : α → Bool) (l : List α) :
    ((List.range l.length).filter fun i => l[i]?.any p).length = l.countP p := by
  induction l with
  | nil => rfl
  | cons x l ih =>
    rw [List.length_cons, List.range_succ_eq_map, List.filter_cons, List.filter_map,
      List.countP_cons, ← ih]
    have hcomp : ((fun i => (x :: l)[i]?.any p) ∘ Nat.succ) = fun i => l[i]?.any p := by
      funext i
      simp
    rw [hcomp]
    cases hx : p x with
    | true => simp [hx]
    | false => simp [hx]

/-! ### A list of handles -/

/-- The handles of the live records, each once. -/
structure Lists (hs : List Nat) (l : List α) (live : α → Bool) : Prop where
  nodup : hs.Nodup
  mem : ∀ h, h ∈ hs ↔ ∃ x, l[h]? = some x ∧ live x = true

variable {hs : List Nat} {l : List α} {live : α → Bool}

theorem Lists.nil : Lists [] ([] : List α) live where
  nodup := List.nodup_nil
  mem := by simp

/-- As many handles as live records. -/
theorem Lists.length (h : Lists hs l live) : hs.length = l.countP live := by
  rw [← length_filter_range]
  have hfilter : ((List.range l.length).filter fun i => l[i]?.any live).Nodup :=
    List.nodup_range.filter _
  refine ((List.perm_ext_iff_of_nodup h.nodup hfilter).mpr fun i => ?_).length_eq
  rw [h.mem, List.mem_filter, List.mem_range, Option.any_eq_true]
  constructor
  · rintro ⟨x, hx, hlive⟩
    exact ⟨(List.getElem?_eq_some_iff.mp hx).1, x, hx, hlive⟩
  · rintro ⟨-, x, hx, hlive⟩
    exact ⟨x, hx, hlive⟩

theorem Lists.lt (h : Lists hs l live) {i : Nat} (hi : i ∈ hs) : i < l.length := by
  obtain ⟨x, hx, -⟩ := (h.mem i).mp hi
  exact (List.getElem?_eq_some_iff.mp hx).1

/-- A record is added that is not live. -/
theorem Lists.concat (h : Lists hs l live) {x : α} (hlive : live x = false) :
    Lists hs (l ++ [x]) live where
  nodup := h.nodup
  mem := by
    intro i
    rw [h.mem]
    constructor
    · rintro ⟨y, hy, hy'⟩
      have hlt := (List.getElem?_eq_some_iff.mp hy).1
      exact ⟨y, by rwa [List.getElem?_append_left hlt], hy'⟩
    · rintro ⟨y, hy, hy'⟩
      obtain hold | ⟨-, rfl⟩ := getElem?_concat hy
      · exact ⟨y, hold, hy'⟩
      · rw [hlive] at hy'
        cases hy'

/-- A live record is added. -/
theorem Lists.push (h : Lists hs l live) {x : α} (hlive : live x = true) :
    Lists (hs ++ [l.length]) (l ++ [x]) live where
  nodup := by
    refine List.Nodup.append h.nodup (List.nodup_singleton _) ?_
    simp only [List.disjoint_singleton]
    intro hmem
    exact absurd (h.lt hmem) (Nat.lt_irrefl _)
  mem := by
    intro i
    rw [List.mem_append, h.mem, List.mem_singleton]
    constructor
    · rintro (⟨y, hy, hy'⟩ | rfl)
      · have hlt := (List.getElem?_eq_some_iff.mp hy).1
        exact ⟨y, by rwa [List.getElem?_append_left hlt], hy'⟩
      · exact ⟨x, List.getElem?_concat_length, hlive⟩
    · rintro ⟨y, hy, hy'⟩
      obtain hold | ⟨hi, -⟩ := getElem?_concat hy
      · exact Or.inl ⟨y, hold, hy'⟩
      · exact Or.inr hi

/-- A record changes and is as live as before. -/
theorem Lists.modify (h : Lists hs l live) {i : Nat} {x : α} (hx : l[i]? = some x) {f : α → α}
    (hlive : live (f x) = live x) : Lists hs (l.modify i f) live where
  nodup := h.nodup
  mem := by
    intro j
    rw [h.mem, List.getElem?_modify]
    by_cases hij : i = j
    · subst hij
      simp [hx, hlive]
    · simp [hij]

/-- A record dies and its handle goes. -/
theorem Lists.remove (h : Lists hs l live) {i : Nat} {f : α → α} {hs' : List Nat}
    (hnodup : hs'.Nodup) (hmem : ∀ j, j ∈ hs' ↔ j ∈ hs ∧ j ≠ i)
    (hdead : ∀ x, l[i]? = some x → live (f x) = false) : Lists hs' (l.modify i f) live where
  nodup := hnodup
  mem := by
    intro j
    rw [hmem, h.mem, List.getElem?_modify]
    by_cases hij : i = j
    · subst hij
      simp only [ne_eq, not_true_eq_false, and_false, if_true, false_iff]
      rintro ⟨y, hy, hy'⟩
      obtain ⟨x, hx, rfl⟩ := Option.map_eq_some_iff.mp hy
      rw [hdead x hx] at hy'
      cases hy'
    · simp [hij, Ne.symm hij]

/-- All live records die. -/
theorem Lists.clear (h : Lists hs l live) {all : List Nat} (hnodup : all.Nodup)
    (hall : ∀ i ∈ hs, i ∈ all) {f : α → α}
    (hdead : ∀ i ∈ all, ∀ x, l[i]? = some x → live (f x) = false) :
    ∀ (i : Nat) (x : α), (modifyAll l all f)[i]? = some x → live x = false := by
  intro i x hx
  rw [getElem?_modifyAll hnodup] at hx
  by_cases hi : i ∈ all
  · rw [if_pos hi] at hx
    obtain ⟨y, hy, rfl⟩ := Option.map_eq_some_iff.mp hx
    exact hdead i hi y hy
  · rw [if_neg hi] at hx
    rw [← Bool.not_eq_true]
    exact fun hlive => hi (hall i ((h.mem i).mpr ⟨x, hx, hlive⟩))

theorem Lists.dead (h : ∀ (i : Nat) (x : α), l[i]? = some x → live x = false) :
    Lists [] l live where
  nodup := List.nodup_nil
  mem := by
    intro i
    simp only [List.not_mem_nil, false_iff]
    rintro ⟨x, hx, hlive⟩
    rw [h i x hx] at hlive
    cases hlive

/-! ### The table -/

variable {κ : Type*} [DecidableEq κ]

/-- The table finds the live records, each by its own key. -/
structure Indexes (m : AList fun _ : κ => Nat) (l : List α) (key : α → Option κ)
    (live : α → Bool) : Prop where
  found : ∀ id h, m.lookup id = some h → ∃ x, l[h]? = some x ∧ key x = some id ∧ live x = true
  kept : ∀ h x, l[h]? = some x → live x = true → ∃ id, key x = some id ∧ m.lookup id = some h

variable {m : AList fun _ : κ => Nat} {key : α → Option κ}

/-- The handles in the table. -/
def handles (m : AList fun _ : κ => Nat) : List Nat := m.entries.map Sigma.snd

theorem mem_handles {h : Nat} : h ∈ handles m ↔ ∃ id, m.lookup id = some h := by
  simp only [handles, List.mem_map]
  constructor
  · rintro ⟨⟨id, h'⟩, hmem, rfl⟩
    exact ⟨id, AList.mem_lookup_iff.mpr hmem⟩
  · rintro ⟨id, hid⟩
    exact ⟨⟨id, h⟩, AList.mem_lookup_iff.mp hid, rfl⟩

theorem Indexes.empty : Indexes (∅ : AList fun _ : κ => Nat) ([] : List α) key live where
  found := by simp
  kept := by simp

/-- The handles in the table are the ones of the live records. -/
theorem Indexes.lists (h : Indexes m l key live) : Lists (handles m) l live where
  nodup := by
    refine m.nodupKeys.nodup.map_on ?_
    rintro ⟨id, i⟩ hi ⟨id', i'⟩ hi' heq
    obtain rfl : i = i' := heq
    obtain ⟨x, hx, hid, -⟩ := h.found id i (AList.mem_lookup_iff.mpr hi)
    obtain ⟨x', hx', hid', -⟩ := h.found id' i (AList.mem_lookup_iff.mpr hi')
    rw [hx] at hx'
    cases hx'
    rw [hid] at hid'
    cases hid'
    rfl
  mem := by
    intro i
    rw [mem_handles]
    constructor
    · rintro ⟨id, hid⟩
      obtain ⟨x, hx, -, hlive⟩ := h.found id i hid
      exact ⟨x, hx, hlive⟩
    · rintro ⟨x, hx, hlive⟩
      obtain ⟨id, -, hid⟩ := h.kept i x hx hlive
      exact ⟨id, hid⟩

/-- The size of the table. -/
theorem Indexes.size (h : Indexes m l key live) : m.entries.length = l.countP live := by
  rw [← h.lists.length, handles, List.length_map]

/-- A record is live when it is found under its key. -/
theorem Indexes.live_iff (h : Indexes m l key live) {i : Nat} {x : α} {id : κ} (hx : l[i]? = some x)
    (hkey : key x = some id) : live x = true ↔ m.lookup id = some i := by
  constructor
  · intro hlive
    obtain ⟨id', hid', hlookup⟩ := h.kept i x hx hlive
    rw [hkey] at hid'
    cases hid'
    exact hlookup
  · intro hlookup
    obtain ⟨y, hy, -, hlive⟩ := h.found id i hlookup
    rw [hx] at hy
    cases hy
    exact hlive

theorem Indexes.lt (h : Indexes m l key live) {id : κ} {i : Nat} (hid : m.lookup id = some i) :
    i < l.length :=
  h.lists.lt (mem_handles.mpr ⟨id, hid⟩)

/-- A record is added with an id that is not in use. -/
theorem Indexes.insert (h : Indexes m l key live) {id : κ} {x : α} (hfree : m.lookup id = none)
    (hkey : key x = some id) (hlive : live x = true) :
    Indexes (m.insert id l.length) (l ++ [x]) key live where
  found := by
    intro id' i hi
    by_cases hid : id' = id
    · subst hid
      rw [AList.lookup_insert] at hi
      cases hi
      exact ⟨x, List.getElem?_concat_length, hkey, hlive⟩
    · rw [AList.lookup_insert_ne hid] at hi
      rw [List.getElem?_append_left (h.lt hi)]
      exact h.found id' i hi
  kept := by
    intro i y hy hy'
    obtain hold | ⟨rfl, rfl⟩ := getElem?_concat hy
    · obtain ⟨id', hid', hlookup⟩ := h.kept i y hold hy'
      have hne : id' ≠ id := by
        rintro rfl
        rw [hfree] at hlookup
        cases hlookup
      exact ⟨id', hid', by rwa [AList.lookup_insert_ne hne]⟩
    · exact ⟨id, hkey, AList.lookup_insert m⟩

/-- A record is added that is not for the table. -/
theorem Indexes.concat (h : Indexes m l key live) {x : α} (hlive : live x = false) :
    Indexes m (l ++ [x]) key live where
  found := by
    intro id i hi
    rw [List.getElem?_append_left (h.lt hi)]
    exact h.found id i hi
  kept := by
    intro i y hy hy'
    obtain hold | ⟨rfl, rfl⟩ := getElem?_concat hy
    · exact h.kept i y hold hy'
    · rw [hlive] at hy'
      cases hy'

/-- A record changes and is as live as before. -/
theorem Indexes.modify (h : Indexes m l key live) {i : Nat} {x : α} (hx : l[i]? = some x)
    {f : α → α} (hkey : key (f x) = key x) (hlive : live (f x) = live x) :
    Indexes m (l.modify i f) key live where
  found := by
    intro id j hj
    obtain ⟨y, hy, hid, hy'⟩ := h.found id j hj
    rw [List.getElem?_modify]
    by_cases hij : i = j
    · subst hij
      rw [hx] at hy
      cases hy
      exact ⟨f x, by simp [hx], hkey.trans hid, hlive.trans hy'⟩
    · exact ⟨y, by simp [hij, hy], hid, hy'⟩
  kept := by
    intro j y hy hy'
    rw [List.getElem?_modify] at hy
    by_cases hij : i = j
    · subst hij
      obtain rfl : f x = y := by simpa [hx] using hy
      rw [hkey]
      exact h.kept i x hx (hlive ▸ hy')
    · exact h.kept j y (by simpa [hij] using hy) hy'

/-- A record leaves the table for good. -/
theorem Indexes.erase (h : Indexes m l key live) {id : κ} {i : Nat} (hid : m.lookup id = some i)
    {f : α → α} (hdead : ∀ x, l[i]? = some x → live (f x) = false) :
    Indexes (m.erase id) (l.modify i f) key live where
  found := by
    intro id' j hj
    have hne : id' ≠ id := by
      rintro rfl
      rw [AList.lookup_erase] at hj
      cases hj
    rw [AList.lookup_erase_ne hne] at hj
    obtain ⟨y, hy, hid', hy'⟩ := h.found id' j hj
    have hij : i ≠ j := by
      rintro rfl
      obtain ⟨x, hx, hkey, -⟩ := h.found id i hid
      rw [hx] at hy
      cases hy
      rw [hkey] at hid'
      cases hid'
      exact hne rfl
    exact ⟨y, by simp [hij, hy], hid', hy'⟩
  kept := by
    intro j y hy hy'
    rw [List.getElem?_modify] at hy
    by_cases hij : i = j
    · subst hij
      obtain ⟨x, hx, -⟩ := h.found id i hid
      obtain rfl : f x = y := by simpa [hx] using hy
      rw [hdead x hx] at hy'
      cases hy'
    · obtain ⟨id', hid', hlookup⟩ := h.kept j y (by simpa [hij] using hy) hy'
      have hne : id' ≠ id := by
        rintro rfl
        rw [hid] at hlookup
        cases hlookup
        exact hij rfl
      exact ⟨id', hid', by rwa [AList.lookup_erase_ne hne]⟩

/-- The table is cleared, and no record is live. -/
theorem Indexes.dead (h : ∀ (i : Nat) (x : α), l[i]? = some x → live x = false) :
    Indexes (∅ : AList fun _ : κ => Nat) l key live where
  found := by simp
  kept := by
    intro i x hx hlive
    rw [h i x hx] at hlive
    cases hlive

end Handles
