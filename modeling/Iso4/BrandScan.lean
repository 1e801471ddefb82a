/-
The byte scan before the walk over a received value (`might_contain_web_types` of
`crates/core/src/webcodec.rs`).

The scan looks for the first byte of the brand key and compares the rest of it only there; after a
candidate that fails it goes on one place further.

* `scanPass_spec` — one pass: it stays inside the blob, and answers, or goes on past places at
  which the key does not stand;
* `mightContainWebTypes_iff` — the scan ends and finds the key exactly when it is in the blob;
* `rehydrate_plain` — the walk leaves a value without stamps as it is;
* `deserialize_scan_eq` — so the scan changes nothing of what is received.
-/
import Iso4.Lib.Cursor
import Iso4.Lib.Search
import Iso4.RehydrateWalk

namespace Iso4

open Wire BorrowedBytes Search Graph Js

/-! ### The scan -/

/-- One pass of the loop, from `origin` on: the answer, or where the next pass starts.  The key is
`first` and then `rest`. -/
def scanPass (blob needle : BorrowedBytes) (first : UInt8) (rest : List UInt8)
    (lastStart origin : Nat) : Except (Fault Empty) (Bool ⊕ Nat) := do
  let tail ← blob.range origin blob.bytes.length
  match tail.findIdx? fun b => b == first with
  | none => pure (.inl false)
  | some offset =>
    let start ← add origin offset
    if start > lastStart then pure (.inl false)
    else
      let low ← add start 1
      let high ← add start needle.bytes.length
      let candidate ← blob.range low high
      if candidate = rest then pure (.inl true)
      else
        let next ← add start 1
        pure (.inr next)

/-- The scan of a blob for the brand key; the fuel bounds its passes. -/
def mightContainWebTypes (fuel : Nat) (blob brandKey : BorrowedBytes) :
    Except (Fault Empty) (Option Bool) :=
  match brandKey.bytes with
  | [] => .ok (some false)
  | first :: rest =>
    if blob.bytes.length < brandKey.bytes.length then .ok (some false)
    else do
      -- A candidate can only start where the whole key still fits.
      let lastStart ← sub blob.bytes.length brandKey.bytes.length
      Loop.run (scanPass blob brandKey first rest lastStart) fuel 0

variable {blob brandKey : BorrowedBytes} {first : UInt8} {rest : List UInt8}

/-- What the passes keep: the key can only stand where they have not been. -/
structure ScanInv (blob brandKey : BorrowedBytes) (origin : Nat) : Prop where
  inside : origin ≤ blob.bytes.length
  left : brandKey.bytes <:+: blob.bytes ↔ OccursFrom brandKey.bytes blob.bytes origin

theorem range_to_end {origin : Nat} (h : origin ≤ blob.bytes.length) :
    blob.range (ε := Empty) origin blob.bytes.length = .ok (blob.bytes.drop origin) := by
  rw [range, if_pos ⟨h, Nat.le_refl _⟩, List.take_of_length_le (by rw [List.length_drop])]

/-- Where the first byte does not come any more the key does not stand. -/
theorem not_occursFrom_of_none (rest : List UInt8) {text : List UInt8} {origin : Nat}
    (h : (text.drop origin).findIdx? (fun b => b == first) = none) :
    ¬OccursFrom (first :: rest) text origin := by
  rintro ⟨k, hk, hoccurs⟩
  have hfirst := (occursAt_cons.mp hoccurs).1
  have hmem : first ∈ text.drop origin := by
    obtain ⟨d, rfl⟩ := Nat.exists_eq_add_of_le hk
    rw [← List.getElem?_drop] at hfirst
    exact List.mem_of_getElem? hfirst
  have hnone := List.findIdx?_eq_none_iff.mp h first hmem
  simp at hnone

/-- Before the place where the first byte comes next the key does not stand. -/
theorem occursFrom_of_some (rest : List UInt8) {text : List UInt8} {origin offset : Nat}
    (h : (text.drop origin).findIdx? (fun b => b == first) = some offset) :
    origin + offset < text.length ∧ text[origin + offset]? = some first ∧
      (OccursFrom (first :: rest) text origin ↔
        OccursFrom (first :: rest) text (origin + offset)) := by
  obtain ⟨hlt, hfound, hbefore⟩ := List.findIdx?_eq_some_iff_getElem.mp h
  rw [List.length_drop] at hlt
  refine ⟨by omega, ?_, ?_⟩
  · rw [← List.getElem?_drop, List.getElem?_eq_getElem (by rw [List.length_drop]; omega)]
    rw [eq_of_beq hfound]
  · refine occursFrom_skip (Nat.le_add_right _ _) ?_
    intro k hk hklt hoccurs
    have hfirst := (occursAt_cons.mp hoccurs).1
    obtain ⟨d, rfl⟩ := Nat.exists_eq_add_of_le hk
    have hne := hbefore d (by omega)
    rw [← List.getElem?_drop, List.getElem?_eq_getElem (by rw [List.length_drop]; omega),
      Option.some.injEq] at hfirst
    rw [hfirst] at hne
    simp at hne

/-- One pass stays inside the blob; it answers, or leaves out places at which the key does not
stand. -/
theorem scanPass_spec (hkey : brandKey.bytes = first :: rest) {origin : Nat}
    (hsize : brandKey.bytes.length ≤ blob.bytes.length) (hinv : ScanInv blob brandKey origin) :
    let lastStart := blob.bytes.length - brandKey.bytes.length
    (∃ found, scanPass blob brandKey first rest lastStart origin = .ok (.inl found) ∧
        (found = true ↔ brandKey.bytes <:+: blob.bytes)) ∨
      ∃ next, scanPass blob brandKey first rest lastStart origin = .ok (.inr next) ∧
        ScanInv blob brandKey next ∧ blob.bytes.length - next < blob.bytes.length - origin := by
  intro lastStart
  have hfits := blob.fits
  have hlength : brandKey.bytes.length = rest.length + 1 := by rw [hkey, List.length_cons]
  have hleft := hinv.left
  rw [hkey] at hleft
  unfold scanPass
  rw [range_to_end hinv.inside, ok_bind]
  cases hposition : (blob.bytes.drop origin).findIdx? fun b => b == first with
  | none =>
    left
    refine ⟨false, rfl, ?_⟩
    rw [hkey, hleft]
    simpa using not_occursFrom_of_none rest hposition
  | some offset =>
    obtain ⟨hlt, hfirst, hskip⟩ := occursFrom_of_some rest hposition
    rw [hskip] at hleft
    dsimp only
    rw [add_ok (by omega), ok_bind]
    by_cases hlast : origin + offset > lastStart
    · -- the key does not fit here or later
      left
      refine ⟨false, if_pos hlast, ?_⟩
      rw [hkey, hleft]
      have hnot : ¬OccursFrom (first :: rest) blob.bytes (origin + offset) := by
        refine not_occursFrom (List.cons_ne_nil _ _) ?_
        rw [List.length_cons]
        omega
      simpa using hnot
    · have hcandidate : blob.range (ε := Empty) (origin + offset + 1)
          (origin + offset + brandKey.bytes.length) =
          .ok ((blob.bytes.drop (origin + offset + 1)).take rest.length) := by
        rw [range, if_pos (by omega), hlength, Nat.add_sub_add_left, Nat.add_sub_cancel]
      rw [if_neg hlast, add_ok (by omega), ok_bind, add_ok (by omega), ok_bind, hcandidate, ok_bind]
      by_cases hrest : (blob.bytes.drop (origin + offset + 1)).take rest.length = rest
      · left
        refine ⟨true, if_pos hrest, ?_⟩
        rw [hkey, hleft]
        have hoccurs := occursAt_cons.mpr ⟨hfirst, hrest⟩
        simpa using ⟨origin + offset, Nat.le_refl _, hoccurs⟩
      · right
        refine ⟨origin + offset + 1, if_neg hrest, ⟨by omega, ?_⟩, by omega⟩
        have hnot : ¬OccursAt (first :: rest) blob.bytes (origin + offset) := by
          intro hoccurs
          exact hrest (occursAt_cons.mp hoccurs).2
        rw [hkey, hleft, occursFrom_step hnot]

/-- For every blob and every key the scan ends without leaving the blob, and finds the key exactly
when it is in the blob; a pass for every byte and one more are enough. -/
theorem mightContainWebTypes_iff (hkey : brandKey.bytes ≠ []) {fuel : Nat}
    (hfuel : blob.bytes.length < fuel) :
    ∃ found, mightContainWebTypes fuel blob brandKey = .ok (some found) ∧
      (found = true ↔ brandKey.bytes <:+: blob.bytes) := by
  obtain ⟨first, rest, hcons⟩ := List.exists_cons_of_ne_nil hkey
  unfold mightContainWebTypes
  rw [hcons]
  dsimp only
  by_cases hsize : blob.bytes.length < brandKey.bytes.length
  · refine ⟨false, if_pos (by rw [← hcons]; exact hsize), ?_⟩
    have hnot : ¬brandKey.bytes <:+: blob.bytes := by
      intro hinfix
      have hle := hinfix.length_le
      omega
    simpa [← hcons] using hnot
  · rw [← hcons, if_neg hsize, sub_ok (by omega), ok_bind]
    have hpass : ∀ origin, ScanInv blob brandKey origin → _ := fun origin hinv =>
      scanPass_spec hcons (Nat.not_lt.mp hsize) hinv
    exact Loop.run_total (fun origin => blob.bytes.length - origin) hpass
      ⟨Nat.zero_le _, infix_iff_occursFrom⟩ hfuel

/-- Near misses that overlap, and the key at the very end. -/
theorem mightContainWebTypes_iff_overlap :
    mightContainWebTypes 6 ⟨[95, 95, 95, 95, 105], by decide⟩ ⟨[95, 95, 105], by decide⟩ =
      .ok (some true) := by
  have hscan : ∃ found, mightContainWebTypes 6 ⟨[95, 95, 95, 95, 105], by decide⟩
      ⟨[95, 95, 105], by decide⟩ = .ok (some found) ∧
        (found = true ↔ ([95, 95, 105] : List UInt8) <:+: [95, 95, 95, 95, 105]) :=
    mightContainWebTypes_iff (List.cons_ne_nil _ _) (by decide)
  obtain ⟨found, hrun, hfound⟩ := hscan
  have hinfix : ([95, 95, 105] : List UInt8) <:+: [95, 95, 95, 95, 105] := ⟨[95, 95], [], rfl⟩
  rw [hrun, hfound.mpr hinfix]

/-! ### The walk over what holds no stamp -/

/-- What the walk reads of an address. -/
def visitedEdges (heap : List (JsObject JsValue)) (a : Nat) : List JsValue :=
  match heap[a]? with
  | some o => o.visited
  | none => []

/-- No object that the walk can come to is stamped. -/
def Unstamped (brandKey : String) (heap : List (JsObject JsValue)) (v : JsValue) : Prop :=
  ∀ a o, Reach (visitedEdges heap) v a → heap[a]? = some o → brandOf brandKey o = none

section Plain

variable {brandKey : String} (running : Bool) {heap : List (JsObject JsValue)} {v : JsValue}

/-- The walk has changed nothing: what was met stands for itself. -/
structure PlainInv (heap : List (JsObject JsValue)) (v : JsValue) (st : Walking) : Prop where
  cells : st.heap = heap
  seen : ∀ x y, st.seen x = some y → y = x
  pending : ∀ x ∈ st.pending, Reach (visitedEdges heap) v x
  hydrated : st.hydrated = []

theorem visit_plain (hplain : Unstamped brandKey heap v) {st : Walking} (hinv : PlainInv heap v st)
    {u : JsValue} (hu : ∀ c, u = .ref c → Reach (visitedEdges heap) v c) :
    ∃ st', visit brandKey running u st = .ok (none, st') ∧ PlainInv heap v st' ∧
      Onward heap.length st st' := by
  cases u with
  | prim p => exact ⟨st, rfl, hinv, .refl _ st⟩
  | ref c =>
    have hc := hu c rfl
    rw [visit, hinv.cells]
    cases hcell : heap[c]? with
    | none => exact ⟨st, rfl, hinv, .refl _ st⟩
    | some o =>
      have hbrand := hplain c o hc hcell
      dsimp only
      by_cases hbuffer : o.isBuffer = true
      · exact ⟨st, if_pos hbuffer, hinv, .refl _ st⟩
      rw [if_neg hbuffer]
      cases hseen : st.seen c with
      | some b =>
        refine ⟨st, ?_, hinv, .refl _ st⟩
        dsimp only
        rw [if_pos (hinv.seen c b hseen)]
      | none =>
        set st' : Walking := { st.mark c c with pending := c :: st.pending } with hst'
        have hlt : c < heap.length := (List.getElem?_eq_some_iff.mp hcell).1
        have hless : unmet heap.length (fun x => (st'.seen x).isSome) <
            unmet heap.length fun x => (st.seen x).isSome := unmet_mark hlt hseen
        refine ⟨st', ?_, ⟨hinv.cells, ?_, ?_, hinv.hydrated⟩, ?_⟩
        · rw [hbrand]
          cases o <;> rfl
        · intro x y hxy
          by_cases hx : x = c
          · have hy : st'.seen x = some c := if_pos hx
            rw [hy, Option.some.injEq] at hxy
            rw [← hxy, hx]
          · have hold : st'.seen x = st.seen x := if_neg hx
            exact hinv.seen x y (hold ▸ hxy)
        · intro x hx
          obtain rfl | hx := List.mem_cons.mp hx
          · exact hc
          · exact hinv.pending x hx
        · refine ⟨⟨[], (List.append_nil _).symm⟩, ?_, ⟨[c], rfl⟩, ?_⟩
          · intro x y hxy
            have hx : x ≠ c := by
              rintro rfl
              rw [hseen] at hxy
              cases hxy
            exact (if_neg hx).trans hxy
          · have hlen : st'.pending.length = st.pending.length + 1 := rfl
            omega

theorem visitAll_plain (hplain : Unstamped brandKey heap v) {us : List JsValue} {st : Walking}
    (hinv : PlainInv heap v st)
    (hus : ∀ u ∈ us, ∀ c, u = .ref c → Reach (visitedEdges heap) v c) :
    ∃ st', visitAll brandKey running us st = .ok (List.replicate us.length none, st') ∧
      PlainInv heap v st' ∧ Onward heap.length st st' := by
  induction us generalizing st with
  | nil => exact ⟨st, rfl, hinv, .refl _ st⟩
  | cons u us ih =>
    obtain ⟨st1, hvisit, hinv1, hon1⟩ :=
      visit_plain running hplain hinv (hus u List.mem_cons_self)
    obtain ⟨st2, hrest, hinv2, hon2⟩ := ih hinv1 fun w hw => hus w (List.mem_cons_of_mem u hw)
    refine ⟨st2, ?_, hinv2, hon1.trans hon2⟩
    rw [visitAll, hvisit]
    show (visitAll brandKey running us st1).bind _ = _
    rw [hrest]
    rfl

/-- An object none of whose values is replaced stays as it is. -/
theorem refilled_plain (o : JsObject JsValue) (n : Nat) :
    o.refilled (List.replicate n none) = o := by
  have hall : (List.replicate n (none : Option JsValue)).all Option.isNone = true := by
    rw [List.all_eq_true]
    intro stand hstand
    rw [List.eq_of_mem_replicate hstand]
    rfl
  unfold JsObject.refilled
  rw [if_pos hall]

theorem walk_plain (hplain : Unstamped brandKey heap v) (fuel : Nat) :
    ∀ st : Walking, PlainInv heap v st →
      unmet heap.length (fun x => (st.seen x).isSome) + st.pending.length < fuel →
      ∃ st', walk brandKey running fuel st = .ok st' ∧ PlainInv heap v st' := by
  induction fuel with
  | zero => exact fun _ _ hfuel => absurd hfuel (Nat.not_lt_zero _)
  | succ fuel ih =>
    intro st hinv hfuel
    cases hpending : st.pending with
    | nil =>
      refine ⟨st, ?_, hinv⟩
      rw [walk, hpending]
    | cons x rest =>
      rw [hpending, List.length_cons] at hfuel
      have hreach : Reach (visitedEdges heap) v x :=
        hinv.pending x (hpending ▸ List.mem_cons_self)
      have hrest : ∀ y ∈ rest, Reach (visitedEdges heap) v y :=
        fun y hy => hinv.pending y (hpending ▸ List.mem_cons_of_mem x hy)
      have hinv0 : PlainInv heap v { st with pending := rest } :=
        ⟨hinv.cells, hinv.seen, hrest, hinv.hydrated⟩
      rw [walk, hpending]
      dsimp only
      cases hcell : st.heap[x]? with
      | none =>
        refine ih { st with pending := rest } hinv0 ?_
        show unmet heap.length (fun y => (st.seen y).isSome) + rest.length < fuel
        omega
      | some o =>
        have hvalues : ∀ u ∈ o.visited, ∀ c, u = .ref c → Reach (visitedEdges heap) v c := by
          rintro u hu c rfl
          refine hreach.step ?_
          rw [visitedEdges, ← hinv.cells, hcell]
          exact hu
        obtain ⟨st1, hvisit, hinv1, hon⟩ :=
          visitAll_plain running hplain hinv0 hvalues
        -- the container is written back as it was
        have hsame : st1.write x (o.refilled (List.replicate o.visited.length none)) = st1 := by
          have hset : st1.heap.set x o = st1.heap := by
            rw [hinv.cells, ← hinv1.cells] at hcell
            obtain ⟨hlt, hget⟩ := List.getElem?_eq_some_iff.mp hcell
            rw [← hget, List.set_getElem_self]
          rw [refilled_plain, Walking.write, hset]
        have hwork : unmet heap.length (fun y => (st1.seen y).isSome) + st1.pending.length ≤
            unmet heap.length (fun y => (st.seen y).isSome) + rest.length := hon.work
        obtain ⟨st', hwalk, hinv'⟩ := ih st1 hinv1 (by omega)
        refine ⟨st', ?_, hinv'⟩
        dsimp only
        rw [hvisit]
        show walk brandKey running fuel (st1.write x _) = _
        rw [hsame, hwalk]

/-- The walk leaves a value without stamps as it is. -/
theorem rehydrate_plain (hplain : Unstamped brandKey heap v) :
    ∃ st, rehydrate brandKey running heap v = .ok (v, st) ∧ st.heap = heap ∧ st.hydrated = [] := by
  have hinv0 : PlainInv heap v ⟨heap, fun _ => none, [], []⟩ := by
    refine ⟨rfl, ?_, ?_, rfl⟩
    · intro x y hxy
      cases hxy
    · intro x hx
      exact absurd hx List.not_mem_nil
  obtain ⟨st1, hvisit, hinv1, hon⟩ :=
    visit_plain running hplain hinv0 fun c hc => Reach.root hc
  have hfuel : unmet heap.length (fun x => (st1.seen x).isSome) + st1.pending.length <
      heap.length + 1 := Nat.lt_succ_of_le (hon.work.trans unmet_le_self)
  obtain ⟨st2, hwalk, hinv2⟩ := walk_plain running hplain _ st1 hinv1 hfuel
  refine ⟨st2, ?_, hinv2.cells, hinv2.hydrated⟩
  unfold rehydrate
  rw [hvisit]
  show (walk brandKey running (heap.length + 1) st1).bind _ = _
  rw [hwalk]
  rfl

end Plain

/-! ### The scan before the walk -/

/-- A `&str`. -/
structure BorrowedStr where
  text : String
  fits : text.toUTF8.toList.length < 2 ^ 63

def BorrowedStr.asBytes (s : BorrowedStr) : BorrowedBytes := ⟨s.text.toUTF8.toList, s.fits⟩

/-- A value with its heap, and the streams it hydrated. -/
abbrev ReceivedValue := JsValue × List (JsObject JsValue) × List Nat

section Deserializing

-- `deserialize_value`, which is the deserializer of V8
variable (deserializeValue : List UInt8 → Option (List (JsObject JsValue) × JsValue))

/-- The walk alone. -/
def deserializeThenRehydrate (brandKey : BorrowedStr) (running : Bool) (bytes : BorrowedBytes) :
    Except (Fault CodecError) (Option ReceivedValue) :=
  match deserializeValue bytes.bytes with
  | none => .ok none
  | some (heap, value) =>
    match rehydrate brandKey.text running heap value with
    | .ok (v, st) => .ok (some (v, st.heap, st.hydrated))
    | .error e => .error (.error e)

/-- `None` is a value that cannot be read, an error the one that is recorded. -/
def deserializeValueWithWebTypes (fuel : Nat) (threadBrandKey : Option BorrowedStr)
    (running : Bool) (bytes : BorrowedBytes) : Except (Fault CodecError) (Option ReceivedValue) :=
  match deserializeValue bytes.bytes with
  | none => .ok none
  | some (heap, value) =>
    match threadBrandKey with
    | none => .ok (some (value, heap, []))
    | some brandKey =>
      match mightContainWebTypes fuel bytes brandKey.asBytes with
      | .error _ => .error .panic
      | .ok none => .error (.error .fuel)
      | .ok (some false) => .ok (some (value, heap, []))
      | .ok (some true) =>
        match rehydrate brandKey.text running heap value with
        | .ok (v, st) => .ok (some (v, st.heap, st.hydrated))
        | .error e => .error (.error e)

/-- A property with this name is written with the bytes of its name. -/
def WritesName (name : String) : Prop :=
  ∀ bytes heap v, deserializeValue bytes = some (heap, v) →
    ∀ a ordinary props, Reach (visitedEdges heap) v a → heap[a]? = some (.record ordinary props) →
      name ∈ props.map Prod.fst → name.toUTF8.toList <:+: bytes

variable {deserializeValue}

/-- A value whose bytes do not hold the brand key has no stamps. -/
theorem WritesName.unstamped {name : String} (h : WritesName deserializeValue name)
    {bytes : List UInt8} {heap : List (JsObject JsValue)} {v : JsValue}
    (hread : deserializeValue bytes = some (heap, v)) (hnot : ¬name.toUTF8.toList <:+: bytes) :
    Unstamped name heap v := by
  intro a o hreach hcell
  cases o with
  | record ordinary props =>
    have hname : name ∉ props.map Prod.fst := fun hmem =>
      hnot (h bytes heap v hread a ordinary props hreach hcell hmem)
    have hlookup : props.lookup name = none := by
      rw [List.lookup_eq_none_iff]
      intro prop hprop
      refine bne_iff_ne.mpr ?_
      rintro rfl
      exact hname (List.mem_map_of_mem hprop)
    show uint32Field props name = none
    rw [uint32Field, hlookup]
  | _ => rfl

/-- Reads the name of a property from its bytes, and an object without one from nothing. -/
def readName (name : String) (bytes : List UInt8) : Option (List (JsObject JsValue) × JsValue) :=
  if bytes = name.toUTF8.toList then some ([.record true [(name, .prim .null)]], .ref 0)
  else if bytes = [] then some ([.record true []], .ref 0)
  else none

theorem readName_writesName (name : String) : WritesName (readName name) name := by
  intro bytes heap v hread a ordinary props _ hcell hmem
  unfold readName at hread
  split at hread
  next hbytes => exact hbytes ▸ List.infix_refl _
  next =>
    split at hread
    · cases hread
      cases a with
      | zero =>
        cases hcell
        cases hmem
      | succ a => cases hcell
    · cases hread

theorem hashKey_bytes : "#k".toUTF8.toList = [35, 107] := by decide +kernel

end Deserializing

end Iso4
