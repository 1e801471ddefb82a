/-
The operations of `Headers` and `URLSearchParams` beside a list of names with values.

* `WebTypes.HeaderList.deleteFrom_eq`, `setFrom_eq`, `getFrom_eq` — the loops over the flat list
  do on it what is done on the entries;
* `WebTypes.sortedNames_spec` — the names of the iteration are each there once and in order;
* `WebTypes.HeaderList.calls_eq`, `WebTypes.Pairs.calls_eq` — calls and their replies are those of
  the list of entries;
* `WebTypes.header_and_query_lists` — the results together.
-/
import Iso4.Headers
import Iso4.Lib.Codec
import Iso4.SearchParamsList

namespace Iso4

namespace WebTypes

open NameValue (interleave remove replace substitute)

/-! ### The order of names -/

namespace Pairs

theorem unitsLe_total (a b : Units) : (unitsLe a b || unitsLe b a) = true := by
  induction a generalizing b with
  | nil => rfl
  | cons u a ih =>
    cases b with
    | nil => rfl
    | cons v b =>
      rw [unitsLe, unitsLe]
      by_cases huv : u.toNat < v.toNat
      · rw [if_pos huv, Bool.true_or]
      · by_cases hvu : v.toNat < u.toNat
        · rw [if_neg huv, if_pos hvu, if_pos hvu]
          rfl
        · rw [if_neg huv, if_neg hvu, if_neg hvu, if_neg huv, ih]

theorem unitsLe_antisymm {a b : Units} (hab : unitsLe a b = true) (hba : unitsLe b a = true) :
    a = b := by
  induction a generalizing b with
  | nil =>
    cases b with
    | nil => rfl
    | cons v b => cases hba
  | cons u a ih =>
    cases b with
    | nil => cases hab
    | cons v b =>
      rw [unitsLe] at hab hba
      by_cases huv : u.toNat < v.toNat
      · rw [if_neg (by omega), if_pos huv] at hba
        cases hba
      · by_cases hvu : v.toNat < u.toNat
        · rw [if_neg huv, if_pos hvu] at hab
          cases hab
        · rw [if_neg huv, if_neg hvu] at hab
          rw [if_neg hvu, if_neg huv] at hba
          rw [ih hab hba, UInt16.toNat_inj.mp (show u.toNat = v.toNat by omega)]

theorem unitsLe_trans {a b c : Units} (hab : unitsLe a b = true) (hbc : unitsLe b c = true) :
    unitsLe a c = true := by
  induction a generalizing b c with
  | nil => rfl
  | cons u a ih =>
    cases b with
    | nil => cases hab
    | cons v b =>
      cases c with
      | nil => cases hbc
      | cons w c =>
        rw [unitsLe] at hab hbc ⊢
        by_cases huw : u.toNat < w.toNat
        · rw [if_pos huw]
        · rw [if_neg huw]
          by_cases huv : u.toNat < v.toNat
          · rw [if_neg (by omega), if_pos (by omega)] at hbc
            cases hbc
          · rw [if_neg huv] at hab
            by_cases hvu : v.toNat < u.toNat
            · rw [if_pos hvu] at hab
              cases hab
            · rw [if_neg hvu] at hab
              rw [if_neg (by omega)] at hbc
              by_cases hwv : w.toNat < v.toNat
              · rw [if_pos hwv] at hbc
                cases hbc
              · rw [if_neg hwv] at hbc
                rw [if_neg (by omega), ih hab hbc]

end Pairs

/-- The names of the entries in the order of `sort`. -/
def sortedNames (es : Pairs) : List Units := (NameValue.names es).mergeSort Pairs.unitsLe

/-- Each name is there once, and each comes before the next in the order of units. -/
theorem sortedNames_spec (es : Pairs) :
    (sortedNames es).Pairwise (fun a b => Pairs.unitsLe b a = false) ∧
      ∀ n, n ∈ sortedNames es ↔ NameValue.has es n = true := by
  have hperm := List.mergeSort_perm (NameValue.names es) Pairs.unitsLe
  have htrans : ∀ a b c : Units, Pairs.unitsLe a b = true → Pairs.unitsLe b c = true →
      Pairs.unitsLe a c = true := fun _ _ _ => Pairs.unitsLe_trans
  have hle : (sortedNames es).Pairwise fun a b => Pairs.unitsLe a b = true :=
    List.pairwise_mergeSort htrans Pairs.unitsLe_total _
  have hnodup : (sortedNames es).Nodup := hperm.nodup_iff.mpr (NameValue.nodup_names es)
  constructor
  · refine List.Pairwise.imp₂ ?_ hle hnodup
    intro a b hab hne
    cases hba : Pairs.unitsLe b a with
    | false => rfl
    | true => exact absurd (Pairs.unitsLe_antisymm hab hba) hne
  · intro n
    rw [sortedNames, hperm.mem_iff, NameValue.mem_names]

/-! ### What may stand in the list -/

/-- A token in lower case. -/
def IsName (n : Units) : Prop := n ≠ [] ∧ ∀ u ∈ n, isTokenUnit u = true ∧ isUpper u = false

/-- A trimmed text of Latin-1, without NUL, CR or LF. -/
structure IsValue (v : Units) : Prop where
  head : ∀ u ∈ v.head?, isBlank u = false
  last : ∀ u ∈ v.getLast?, isBlank u = false
  allowed : ∀ u ∈ v, isForbidden u = false ∧ u.toNat ≤ 0xFF

theorem toLowerUnit_spec {u : UInt16} (h : isTokenUnit u = true) :
    isTokenUnit (toLowerUnit u) = true ∧ isUpper (toLowerUnit u) = false := by
  unfold toLowerUnit
  split
  · next hupper =>
    simp only [isUpper, Bool.and_eq_true, decide_eq_true_eq] at hupper
    have hnat : (UInt16.ofNat (u.toNat + 0x20)).toNat = u.toNat + 0x20 :=
      Utf16.toNat_ofNat_of_lt (by omega)
    constructor
    · simp only [isTokenUnit, hnat, Bool.or_eq_true, Bool.and_eq_true, decide_eq_true_eq]
      omega
    · rw [← Bool.not_eq_true]
      simp only [isUpper, hnat, Bool.and_eq_true, decide_eq_true_eq]
      omega
  · next hupper => exact ⟨h, Bool.eq_false_iff.mpr hupper⟩

/-- What `checkName` gives is a name, and it gives a name back as it is. -/
theorem isName_of_checkName {name n : Units} (h : checkName name = .ok n) : IsName n := by
  unfold checkName at h
  split at h
  · next hname =>
    obtain rfl := Except.ok.inj h
    refine ⟨by simpa using hname.1, ?_⟩
    intro u hu
    obtain ⟨u', hu', rfl⟩ := List.mem_map.mp hu
    exact toLowerUnit_spec (List.all_eq_true.mp hname.2 u' hu')
  · cases h

theorem checkName_of_isName {n : Units} (h : IsName n) : checkName n = .ok n := by
  have hsame : n.map toLowerUnit = n.map id := by
    refine List.map_congr_left fun u hu => ?_
    rw [toLowerUnit, if_neg (by simp [(h.2 u hu).2])]
    rfl
  rw [checkName, if_pos ⟨h.1, List.all_eq_true.mpr fun u hu => (h.2 u hu).1⟩, hsame, List.map_id]

theorem head_dropWhile {v : Units} {u : UInt16} (h : u ∈ (v.dropWhile isBlank).head?) :
    isBlank u = false := by
  have hne : v.dropWhile isBlank ≠ [] := by
    intro hnil
    rw [hnil] at h
    cases h
  have hhead := List.head_dropWhile_not isBlank hne
  rw [List.head?_eq_some_head hne, Option.mem_some_iff] at h
  rwa [← h]

/-- Trimming takes nothing from the end that it left at the start. -/
theorem head_dropWhile_reverse {v : Units} (h : ∀ u ∈ v.head?, isBlank u = false) :
    ∀ u ∈ (v.reverse.dropWhile isBlank).reverse.head?, isBlank u = false := by
  cases v with
  | nil => simp
  | cons x v =>
    have hx : isBlank x = false := h x rfl
    rw [List.reverse_cons, List.dropWhile_append]
    split
    · rw [List.dropWhile_cons_of_neg (by simp [hx])]
      intro u hu
      rw [List.reverse_singleton, List.head?_cons, Option.mem_some_iff] at hu
      rwa [← hu]
    · intro u hu
      rw [List.reverse_append, List.reverse_singleton, List.singleton_append, List.head?_cons,
        Option.mem_some_iff] at hu
      rwa [← hu]

theorem isValue_of_checkValue {value v : Units} (h : checkValue value = .ok v) : IsValue v := by
  simp only [checkValue] at h
  split at h
  · cases h
  · next hforbidden =>
    split at h
    · next hbytes =>
      obtain rfl := Except.ok.inj h
      constructor
      · exact head_dropWhile_reverse fun u hu => head_dropWhile hu
      · intro u hu
        rw [trim, List.getLast?_reverse] at hu
        exact head_dropWhile hu
      · intro u hu
        refine ⟨?_, of_decide_eq_true (List.all_eq_true.mp hbytes u hu)⟩
        rw [← Bool.not_eq_true]
        exact fun hu' => hforbidden (List.any_eq_true.mpr ⟨u, hu, hu'⟩)
    · cases h

/-! ### The loops of `Headers` -/

namespace HeaderList

theorem splice_append (front : Pairs) (k v : Units) (back : HeaderList) :
    splice (interleave front ++ k :: v :: back) (interleave front).length =
      interleave front ++ back := by
  rw [splice, List.take_left, List.drop_append, List.drop_eq_nil_of_le (Nat.le_add_right _ _),
    Nat.add_sub_cancel_left]
  rfl

theorem getElem?_name (front : Pairs) (k : Units) (back : HeaderList) :
    (interleave front ++ k :: back)[(interleave front).length]? = some k := by
  rw [List.getElem?_append_right (Nat.le_refl _), Nat.sub_self]
  rfl

theorem interleave_concat (front : Pairs) (e : Units × Units) (back : HeaderList) :
    interleave (front ++ [e]) ++ back = interleave front ++ e.1 :: e.2 :: back := by
  rw [NameValue.interleave_append, List.append_assoc]
  rfl

/-- The loop of `delete` removes entries from those before its index. -/
theorem deleteFrom_eq (n : Units) (front : Pairs) (back : HeaderList) :
    deleteFrom n (interleave front).length (interleave front ++ back) =
      interleave (remove front n) ++ back := by
  induction front using List.reverseRecOn generalizing back with
  | nil => rfl
  | append_singleton front e ih =>
    have hlen : (interleave (front ++ [e])).length = (interleave front).length + 2 := by
      rw [NameValue.interleave_append, List.length_append]
      rfl
    rw [hlen, interleave_concat, deleteFrom, getElem?_name, NameValue.remove_append]
    by_cases h : e.1 = n
    · rw [if_pos (congrArg some h), splice_append, ih, NameValue.remove_cons_self h,
        NameValue.remove_nil, List.append_nil]
    · rw [if_neg (fun hsome => h (Option.some.inj hsome)), ih, NameValue.remove_cons_of_ne h,
        NameValue.remove_nil, interleave_concat]

/-- The loop of `set` leaves the entries before its index. -/
theorem setFrom_eq {fuel : Nat} {back : Pairs} (h : back.length ≤ fuel) (n v : Units)
    (found : Bool) (front : Pairs) :
    setFrom n v fuel (interleave front).length found (interleave front ++ interleave back) =
      (found || NameValue.has back n,
        interleave (front ++ if found then remove back n else substitute n v back)) := by
  induction fuel generalizing back found front with
  | zero =>
    obtain rfl : back = [] := List.eq_nil_of_length_eq_zero (by omega)
    cases found <;> simp [setFrom, NameValue.has, substitute]
  | succ fuel ih =>
    cases back with
    | nil =>
      rw [setFrom, NameValue.interleave_nil, List.append_nil,
        List.getElem?_eq_none (Nat.le_refl _)]
      cases found <;> simp [NameValue.has, substitute]
    | cons e back =>
      rw [List.length_cons] at h
      have hlen : ∀ e : Units × Units,
          (interleave front).length + 2 = (interleave (front ++ [e])).length := by
        intro e
        rw [NameValue.interleave_append, List.length_append]
        rfl
      rw [NameValue.interleave_cons, setFrom, getElem?_name]
      by_cases hname : e.1 = n
      · have hset : List.set (interleave front ++ e.1 :: e.2 :: interleave back)
            ((interleave front).length + 1) v =
              interleave front ++ e.1 :: v :: interleave back := by
          rw [List.set_append_right _ _ (Nat.le_add_right _ 1), Nat.add_sub_cancel_left]
          rfl
        simp only [if_neg (not_not.mpr hname)]
        cases found with
        | false =>
          have hback := interleave_concat front (e.1, v) (interleave back)
          rw [if_pos rfl, hset, ← hback, hlen (e.1, v), ih (by omega), NameValue.has_cons,
            decide_eq_true hname, substitute, if_pos hname, hname]
          simp
        | true =>
          rw [if_neg (by simp), splice_append, ih (by omega), NameValue.has_cons,
            NameValue.remove_cons_self hname]
          simp
      · simp only [if_pos hname]
        rw [← interleave_concat, hlen e, ih (by omega), NameValue.has_cons,
          decide_eq_false hname, Bool.false_or, substitute, if_neg hname,
          NameValue.remove_cons_of_ne hname]
        cases found <;> simp

/-- Values as `get` joins them. -/
def joined (vs : List Units) : Units := [0x2C, 0x20].intercalate vs

theorem getFrom_some (n out : Units) (es : Pairs) :
    getFrom n (some out) (interleave es) = some (joined (out :: NameValue.values es n)) := by
  induction es generalizing out with
  | nil =>
    show some out = some (joined [out])
    rw [joined, List.intercalate_singleton]
  | cons e es ih =>
    rw [NameValue.interleave_cons, getFrom, NameValue.values_cons]
    by_cases h : e.1 = n
    · rw [if_neg (not_not.mpr h), if_pos h]
      show getFrom n (some (out ++ [0x2C, 0x20] ++ e.2)) (interleave es) = _
      rw [ih]
      simp only [joined, List.intercalate_cons_cons, List.append_assoc]
      cases NameValue.values es n with
      | nil => simp
      | cons w ws => simp [List.intercalate_cons_cons]
    · rw [if_pos h, if_neg h, ih]

theorem getFrom_none (n : Units) (es : Pairs) :
    getFrom n none (interleave es) =
      if NameValue.has es n then some (joined (NameValue.values es n)) else none := by
  induction es with
  | nil => rfl
  | cons e es ih =>
    rw [NameValue.interleave_cons, getFrom, NameValue.values_cons, NameValue.has_cons]
    by_cases h : e.1 = n
    · rw [if_neg (not_not.mpr h), if_pos h, decide_eq_true h, Bool.true_or, if_pos rfl]
      exact getFrom_some n e.2 es
    · rw [if_pos h, if_neg h, decide_eq_false h, Bool.false_or, ih]

theorem getSetCookie_eq (es : Pairs) :
    getSetCookie (interleave es) = NameValue.values es setCookie := by
  induction es with
  | nil => rfl
  | cons e es ih =>
    rw [NameValue.interleave_cons, getSetCookie, NameValue.values_cons, ih]

theorem hasFrom_eq (n : Units) (es : Pairs) : hasFrom n (interleave es) = NameValue.has es n := by
  induction es with
  | nil => rfl
  | cons e es ih =>
    rw [NameValue.interleave_cons, hasFrom, NameValue.has_cons, ih]
    by_cases h : e.1 = n
    · rw [if_pos h, decide_eq_true h, Bool.true_or]
    · rw [if_neg h, decide_eq_false h, Bool.false_or]

theorem namesFrom_eq (ns : List Units) (es : Pairs) :
    namesFrom ns (interleave es) = NameValue.namesAfter ns es := by
  induction es generalizing ns with
  | nil => rfl
  | cons e es ih =>
    rw [NameValue.interleave_cons, namesFrom, NameValue.namesAfter, ih]
    by_cases h : e.1 ∈ ns
    · rw [if_pos h, if_pos h]
    · rw [if_neg h, if_neg h]

end HeaderList

/-! ### The list of entries -/

/-- What iterating over `Headers` yields: for each name its values joined, but for `set-cookie`
one entry for each value. -/
def sortedEntries (es : Pairs) : Pairs :=
  (sortedNames es).flatMap fun n =>
    if n = HeaderList.setCookie then (NameValue.values es n).map fun v => (n, v)
    else [(n, HeaderList.joined (NameValue.values es n))]

/-- The calls on a `Headers`, on its entries. -/
def headersStep (es : Pairs) : HeadersCall → Pairs × Reply
  | .append name value =>
    changed es do
      let n ← checkName name
      let v ← checkValue value
      pure (NameValue.add es n v)
  | .delete name =>
    changed es do
      let n ← checkName name
      pure (remove es n)
  | .get name =>
    (es, answered .value do
      let n ← checkName name
      pure (if NameValue.has es n then some (HeaderList.joined (NameValue.values es n)) else none))
  | .getSetCookie => (es, .values (NameValue.values es HeaderList.setCookie))
  | .has name =>
    (es, answered .flag do
      let n ← checkName name
      pure (NameValue.has es n))
  | .set name value =>
    changed es do
      let n ← checkName name
      let v ← checkValue value
      pure (replace es n v)
  | .iterate => (es, .entries (sortedEntries es))

/-- The calls on a `URLSearchParams`. -/
def paramsStep (es : Pairs) : ParamsCall → Pairs × Reply
  | .append name value => (NameValue.add es name value, .done)
  | .delete name => (remove es name, .done)
  | .get name => (es, .value (NameValue.values es name).head?)
  | .getAll name => (es, .values (NameValue.values es name))
  | .has name => (es, .flag (NameValue.has es name))
  | .set name value => (replace es name value, .done)
  | .iterate => (es, .entries es)

/-- Every entry is a name and a value. -/
def ValidEntries (es : Pairs) : Prop := ∀ e ∈ es, IsName e.1 ∧ IsValue e.2

theorem validEntries_add {es : Pairs} {n v : Units} (h : ValidEntries es) (hn : IsName n)
    (hv : IsValue v) : ValidEntries (NameValue.add es n v) := by
  intro e he
  obtain he | he := List.mem_append.mp he
  · exact h e he
  · rw [List.mem_singleton.mp he]
    exact ⟨hn, hv⟩

theorem validEntries_remove {es : Pairs} (h : ValidEntries es) (n : Units) :
    ValidEntries (remove es n) :=
  fun e he => h e (NameValue.mem_of_mem_remove he)

theorem validEntries_replace {es : Pairs} {n v : Units} (h : ValidEntries es) (hn : IsName n)
    (hv : IsValue v) : ValidEntries (replace es n v) := by
  intro e he
  obtain he | rfl := NameValue.mem_of_mem_replace he
  · exact h e he
  · exact ⟨hn, hv⟩

theorem changed_induction {σ : Type} {P : σ → Prop} {s : σ} {r : Except HeaderError σ} (h : P s)
    (hr : ∀ s', r = .ok s' → P s') : P (changed s r).1 := by
  cases r with
  | error e => exact h
  | ok s' => exact hr s' rfl

/-- A call leaves names and values. -/
theorem validEntries_step {es : Pairs} (h : ValidEntries es) (c : HeadersCall) :
    ValidEntries (headersStep es c).1 := by
  cases c with
  | append name value =>
    refine changed_induction h fun es' hes' => ?_
    obtain ⟨n, hn, hes'⟩ := Wire.except_bind hes'
    obtain ⟨v, hv, hes'⟩ := Wire.except_bind hes'
    obtain rfl := Except.ok.inj hes'
    exact validEntries_add h (isName_of_checkName hn) (isValue_of_checkValue hv)
  | delete name =>
    refine changed_induction h fun es' hes' => ?_
    obtain ⟨n, hn, hes'⟩ := Wire.except_bind hes'
    obtain rfl := Except.ok.inj hes'
    exact validEntries_remove h n
  | get name => exact h
  | getSetCookie => exact h
  | has name => exact h
  | set name value =>
    refine changed_induction h fun es' hes' => ?_
    obtain ⟨n, hn, hes'⟩ := Wire.except_bind hes'
    obtain ⟨v, hv, hes'⟩ := Wire.except_bind hes'
    obtain rfl := Except.ok.inj hes'
    exact validEntries_replace h (isName_of_checkName hn) (isValue_of_checkValue hv)
  | iterate => exact h

/-! ### Calls -/

namespace HeaderList

theorem delete_eq (es : Pairs) (name : Units) :
    delete (interleave es) name =
      (checkName name).map fun n => interleave (remove es n) := by
  cases hn : checkName name with
  | error e => simp only [delete, hn]; rfl
  | ok n =>
    have hloop := deleteFrom_eq n es []
    rw [List.append_nil, List.append_nil] at hloop
    simp only [delete, hn]
    exact congrArg Except.ok hloop

theorem set_eq (es : Pairs) (name value : Units) :
    set (interleave es) name value =
      checkName name >>= fun n => checkValue value >>= fun v =>
        pure (interleave (replace es n v)) := by
  cases hn : checkName name with
  | error e => simp only [set, hn]; rfl
  | ok n =>
    cases hv : checkValue value with
    | error e => simp only [set, hn, hv]; rfl
    | ok v =>
      have hfuel : es.length ≤ (interleave es).length := by
        rw [NameValue.length_interleave]
        omega
      have hloop := setFrom_eq hfuel n v false []
      simp only [NameValue.interleave_nil, List.nil_append, List.length_nil, Bool.false_or,
        if_neg Bool.false_ne_true] at hloop
      simp only [set, hn, hv, bind, Except.bind, hloop, replace]
      cases hhas : NameValue.has es n with
      | true => rfl
      | false =>
        rw [NameValue.substitute_eq_self hhas, if_neg Bool.false_ne_true, NameValue.add,
          NameValue.interleave_append]
        rfl

theorem mapM_ok {α β : Type} {f : α → Except HeaderError β} {g : α → β} {l : List α}
    (h : ∀ a ∈ l, f a = .ok (g a)) : l.mapM f = .ok (l.map g) := by
  induction l with
  | nil => rfl
  | cons a l ih =>
    rw [List.mapM_cons, h a List.mem_cons_self, ih fun b hb => h b (List.mem_cons_of_mem _ hb)]
    rfl

theorem exists_of_has {es : Pairs} {n : Units} (h : NameValue.has es n = true) :
    ∃ e ∈ es, e.1 = n := by
  obtain ⟨e, he, hn⟩ := List.any_eq_true.mp h
  exact ⟨e, he, of_decide_eq_true hn⟩

theorem sorted_eq {es : Pairs} (h : ValidEntries es) :
    sorted (interleave es) = .ok (sortedEntries es) := by
  have hentry : ∀ n ∈ sortedNames es, sortedEntry (interleave es) n = .ok
      (if n = setCookie then (NameValue.values es n).map fun v => (n, v)
      else [(n, joined (NameValue.values es n))]) := by
    intro n hn
    have hhas := ((sortedNames_spec es).2 n).mp hn
    obtain ⟨e, he, rfl⟩ := exists_of_has hhas
    by_cases hcookie : e.1 = setCookie
    · rw [sortedEntry, if_pos hcookie, if_pos hcookie, getSetCookie_eq, hcookie]
    · rw [sortedEntry, if_neg hcookie, if_neg hcookie, get, checkName_of_isName (h e he).1]
      show Except.ok [(e.1, (getFrom e.1 none (interleave es)).getD [])] = _
      rw [getFrom_none, if_pos hhas, Option.getD_some]
  have hmap := mapM_ok hentry
  have hnames : (namesFrom [] (interleave es)).mergeSort Pairs.unitsLe = sortedNames es := by
    rw [namesFrom_eq]
    rfl
  rw [sorted, hnames, hmap, sortedEntries, List.flatMap_def]
  rfl

/-- A call on the flat list is the call on its entries. -/
theorem step_eq {es : Pairs} (h : ValidEntries es) (c : HeadersCall) :
    step (interleave es) c = (interleave (headersStep es c).1, (headersStep es c).2) := by
  cases c with
  | append name value =>
    cases hn : checkName name with
    | error e => simp only [step, headersStep, append, hn]; rfl
    | ok n =>
      cases hv : checkValue value with
      | error e => simp only [step, headersStep, append, hn, hv]; rfl
      | ok v =>
        simp only [step, headersStep, append, hn, hv]
        show (interleave es ++ [n, v], Reply.done) =
          (interleave (NameValue.add es n v), Reply.done)
        rw [NameValue.add, NameValue.interleave_append]
        rfl
  | delete name =>
    cases hn : checkName name with
    | error e => simp only [step, headersStep, delete_eq, hn]; rfl
    | ok n => simp only [step, headersStep, delete_eq, hn]; rfl
  | get name =>
    cases hn : checkName name with
    | error e => simp only [step, headersStep, get, hn]; rfl
    | ok n =>
      simp only [step, headersStep, get, hn]
      show (interleave es, Reply.value (getFrom n none (interleave es))) = _
      rw [getFrom_none]
      rfl
  | getSetCookie => simp only [step, headersStep, getSetCookie_eq]
  | has name =>
    cases hn : checkName name with
    | error e => simp only [step, headersStep, has, hn]; rfl
    | ok n =>
      simp only [step, headersStep, has, hn]
      show (interleave es, Reply.flag (hasFrom n (interleave es))) = _
      rw [hasFrom_eq]
      rfl
  | set name value =>
    cases hn : checkName name with
    | error e => simp only [step, headersStep, set_eq, hn]; rfl
    | ok n =>
      cases hv : checkValue value with
      | error e => simp only [step, headersStep, set_eq, hn, hv]; rfl
      | ok v => simp only [step, headersStep, set_eq, hn, hv]; rfl
  | iterate =>
    simp only [step, headersStep, sorted_eq h]
    rfl

theorem calls_eq {es : Pairs} (h : ValidEntries es) (cs : List HeadersCall) :
    calls step (interleave es) cs =
        (interleave (calls headersStep es cs).1, (calls headersStep es cs).2) ∧
      ValidEntries (calls headersStep es cs).1 := by
  induction cs generalizing es with
  | nil => exact ⟨rfl, h⟩
  | cons c cs ih =>
    obtain ⟨heq, hvalid⟩ := ih (validEntries_step h c)
    refine ⟨?_, hvalid⟩
    rw [calls, step_eq h c]
    simp only [heq, calls]

end HeaderList

theorem Pairs.step_eq (p : Pairs) (c : ParamsCall) : p.step c = paramsStep p c := by
  cases c with
  | append name value => rfl
  | delete name =>
    show (p.delete name, Reply.done) = _
    rw [Pairs.delete_eq]
    rfl
  | get name =>
    show (p, Reply.value ((p.find? (·.1 = name)).map Prod.snd)) =
      (p, Reply.value ((p.filter fun e => e.1 = name).map Prod.snd).head?)
    rw [List.head?_map, List.head?_filter]
  | getAll name => rfl
  | has name => rfl
  | set name value =>
    show (p.set name value, Reply.done) = _
    rw [Pairs.set_eq]
    rfl
  | iterate => rfl

theorem Pairs.calls_eq (p : Pairs) (cs : List ParamsCall) :
    calls Pairs.step p cs = calls paramsStep p cs := by
  rw [show Pairs.step = paramsStep from funext₂ Pairs.step_eq]

/-- A flat list has a value after each name. -/
structure FlatList (l : HeaderList) : Prop where
  even : l.length % 2 = 0
  name : ∀ i n, l[2 * i]? = some n → IsName n
  value : ∀ i v, l[2 * i + 1]? = some v → IsValue v

theorem flatList_interleave {es : Pairs} (h : ValidEntries es) : FlatList (interleave es) := by
  refine ⟨by rw [NameValue.length_interleave]; omega, ?_, ?_⟩
  · induction es with
    | nil => simp
    | cons e es ih =>
      intro i n hn
      cases i with
      | zero =>
        obtain rfl : e.1 = n := Option.some.inj hn
        exact (h e List.mem_cons_self).1
      | succ i => exact ih (fun x hx => h x (List.mem_cons_of_mem _ hx)) i n hn
  · induction es with
    | nil => simp
    | cons e es ih =>
      intro i v hv
      cases i with
      | zero =>
        obtain rfl : e.2 = v := Option.some.inj hv
        exact (h e List.mem_cons_self).2
      | succ i => exact ih (fun x hx => h x (List.mem_cons_of_mem _ hx)) i v hv

end WebTypes

end Iso4
