/-
What the pre-pass copies.

The copy goes depth first and keeps the stand-in of every object it has met.  Between two moments of
it the heap only grows, a stand-in once taken stays, and every object met in between is finished:
its copy holds the stand-ins of its values.  At the end the objects reached from the value are all
finished, and the renaming to their stand-ins is the copy.

* `transform_copied` — what one call of the copy does;
* `transform_halts` — it stops early only at an instance that cannot be described, or at a proxy
  that throws;
* `hasHostType_iff` — what the scan finds;
* `transform_whole` — the copy of a whole value.
-/
import Iso4.Materialize

namespace Iso4

open Graph Js

/-- What the pre-pass walks through. -/
def walkEdges (heap : List (JsObject JsValue)) (a : Nat) : List JsValue :=
  (heap[a]?.map JsObject.walked).getD []

theorem walkEdges_some {heap : List (JsObject JsValue)} {a : Nat} {o : JsObject JsValue}
    (h : heap[a]? = some o) : walkEdges heap a = o.walked := by
  rw [walkEdges, h]
  rfl

/-- The objects the pre-pass reaches from a value. -/
abbrev Walk (heap : List (JsObject JsValue)) (v : JsValue) : Nat → Prop := Reach (walkEdges heap) v

/-- The stand-in of an address. -/
def image (seen : Nat → Option Nat) (a : Nat) : Nat := (seen a).getD a

section Copy

variable {brandKey : String} {heap0 : List (JsObject JsValue)}

/-! ### States of a copy -/

/-- The old heap is untouched, and every stand-in is a cell of its own behind it. -/
structure CopyInv (heap0 : List (JsObject JsValue)) (st : Copying) : Prop where
  old : ∀ a, a < heap0.length → st.heap[a]? = heap0[a]?
  len : heap0.length ≤ st.heap.length
  source : ∀ a b, st.seen a = some b → ∃ o, heap0[a]? = some o ∧ o.isKept = false
  cell : ∀ a b, st.seen a = some b → heap0.length ≤ b ∧ b < st.heap.length
  inj : ∀ a a' b, st.seen a = some b → st.seen a' = some b → a = a'

/-- What stays from one moment of a copy to a later one. -/
structure Grows (st st' : Copying) : Prop where
  len : st.heap.length ≤ st'.heap.length
  heap : ∀ b, b < st.heap.length → st'.heap[b]? = st.heap[b]?
  seen : ∀ a b, st.seen a = some b → st'.seen a = some b
  fresh : ∀ a b, st'.seen a = some b → st.seen a = some b ∨ st.heap.length ≤ b
  leg : st'.streams.isSome = st.streams.isSome
  sources : ∀ s, st.streams = some s → ∃ s', st'.streams = some s' ∧ s.sources <+: s'.sources

theorem Grows.refl (st : Copying) : Grows st st :=
  ⟨Nat.le_refl _, fun _ _ => rfl, fun _ _ h => h, fun _ _ h => .inl h, rfl,
    fun s h => ⟨s, h, List.prefix_refl _⟩⟩

theorem Grows.trans {st st' st'' : Copying} (h : Grows st st') (h' : Grows st' st'') :
    Grows st st'' where
  len := Nat.le_trans h.len h'.len
  heap b hb := by rw [h'.heap b (Nat.lt_of_lt_of_le hb h.len), h.heap b hb]
  seen a b hs := h'.seen a b (h.seen a b hs)
  fresh a b hs := by
    rcases h'.fresh a b hs with hs' | hle
    · exact h.fresh a b hs'
    · exact .inr (Nat.le_trans h.len hle)
  leg := h'.leg.trans h.leg
  sources s hs := by
    obtain ⟨s', hs', hsub⟩ := h.sources s hs
    obtain ⟨s'', hs'', hsub'⟩ := h'.sources s' hs'
    exact ⟨s'', hs'', hsub.trans hsub'⟩

theorem Grows.get {st st' : Copying} (h : Grows st st') {b : Nat} {o : JsObject JsValue}
    (hb : st.heap[b]? = some o) : st'.heap[b]? = some o := by
  rw [h.heap b (List.getElem?_eq_some_iff.mp hb).1, hb]

/-- The value has its stand-in: it was met, or it is left as it is. -/
def Covered (heap0 : List (JsObject JsValue)) (st : Copying) (a : Nat) : Prop :=
  (∃ b, st.seen a = some b) ∨ ∀ o, heap0[a]? = some o → o.isKept = true

theorem Covered.mono {st st' : Copying} {a : Nat} (h : Covered heap0 st a) (hg : Grows st st') :
    Covered heap0 st' a := by
  rcases h with ⟨b, hb⟩ | hkept
  · exact .inl ⟨b, hg.seen a b hb⟩
  · exact .inr hkept

theorem Covered.image {st st' : Copying} {a : Nat} (h : Covered heap0 st a) (hg : Grows st st')
    (hinv : CopyInv heap0 st') : image st'.seen a = image st.seen a := by
  unfold Iso4.image
  cases hseen : st.seen a with
  | some b => rw [hg.seen a b hseen]
  | none =>
    rcases h with ⟨b, hb⟩ | hkept
    · rw [hseen] at hb; cases hb
    · cases hseen' : st'.seen a with
      | none => rfl
      | some b =>
        obtain ⟨o, ho, hnot⟩ := hinv.source a b hseen'
        rw [hkept o ho] at hnot
        cases hnot

/-- The cell holds no stand-in of an object: it belongs to a descriptor. -/
def OwnCell (heap0 : List (JsObject JsValue)) (st : Copying) (c : Nat) : Prop :=
  heap0.length ≤ c ∧ c < st.heap.length ∧ ∀ a, st.seen a ≠ some c

theorem OwnCell.mono {st st' : Copying} {c : Nat} (h : OwnCell heap0 st c) (hg : Grows st st') :
    OwnCell heap0 st' c := by
  refine ⟨h.1, Nat.lt_of_lt_of_le h.2.1 hg.len, fun a hs => ?_⟩
  rcases hg.fresh a c hs with hs' | hle
  · exact h.2.2 a hs'
  · exact absurd h.2.1 (Nat.not_lt.mpr hle)

/-- The body properties of a stamped object; its bytes are an object of its own. -/
def BodyAt (heap : List (JsObject JsValue)) (own : Nat → Prop) (props : List (String × JsValue)) :
    MaterializedBody → Prop
  | .null => props = [("body", .prim .null)]
  | .bytes data => ∃ c, props = [("body", .ref c)] ∧ own c ∧
      heap[c]? = some (.native (.buffer .uint8Array data))
  | .stream id => props = [("body", .prim .null), ("bodyStream", .prim (.int id))]

/-- The stamped object of an instance stands in a cell, and its header list in another. -/
structure StampAt (brandKey : String) (heap : List (JsObject JsValue)) (own : Nat → Prop) (b : Nat)
    (i : HostInstance) (headers : List String) (body : MaterializedBody) (list : Nat)
    (bodyProps : List (String × JsValue)) : Prop where
  atCell : heap[b]? = some (.record true ((brandKey, .prim (.int i.fields.1)) ::
    (i.fields.2 ++ ("headers", .ref list) :: bodyProps)))
  atList : heap[list]? = some (.array (headers.map fun s => some (str s)) [])
  ownList : own list
  atBody : BodyAt heap own bodyProps body

/-- The header list and the body are those of the instance, and its source is registered. -/
def Content (streams : Option StreamSourceRegistry) (i : HostInstance) (headers : List String)
    (body : MaterializedBody) : Prop :=
  ∃ before after, describe i before = .ok (headers, body, after) ∧
    before.isSome = streams.isSome ∧
    ∀ s, after = some s → ∃ s', streams = some s' ∧ s.sources <+: s'.sources

theorem StampAt.mono {heap heap' : List (JsObject JsValue)} {own own' : Nat → Prop} {b : Nat}
    {i : HostInstance} {headers : List String} {body : MaterializedBody} {list : Nat}
    {props : List (String × JsValue)} (h : StampAt brandKey heap own b i headers body list props)
    (hb : heap'[b]? = heap[b]?) (hcells : ∀ c, own c → own' c ∧ heap'[c]? = heap[c]?) :
    StampAt brandKey heap' own' b i headers body list props where
  atCell := hb.trans h.atCell
  atList := (hcells list h.ownList).2.trans h.atList
  ownList := (hcells list h.ownList).1
  atBody := by
    cases body with
    | null => exact h.atBody
    | bytes data =>
      obtain ⟨c, hprops, hown, hcell⟩ := h.atBody
      exact ⟨c, hprops, (hcells c hown).1, (hcells c hown).2.trans hcell⟩
    | stream id => exact h.atBody

theorem Content.mono {st st' : Copying} {i : HostInstance} {headers : List String}
    {body : MaterializedBody} (h : Content st.streams i headers body) (hg : Grows st st') :
    Content st'.streams i headers body := by
  obtain ⟨before, after, hdescribe, hleg, hsources⟩ := h
  refine ⟨before, after, hdescribe, hleg.trans hg.leg.symm, fun s hs => ?_⟩
  obtain ⟨s', hs', hsub⟩ := hsources s hs
  obtain ⟨s'', hs'', hsub'⟩ := hg.sources s' hs'
  exact ⟨s'', hs'', hsub.trans hsub'⟩

/-- The descriptor of an instance, in the cells of a copy. -/
def Described (brandKey : String) (heap0 : List (JsObject JsValue)) (st : Copying) (b : Nat)
    (i : HostInstance) : Prop :=
  ∃ headers body list props,
    StampAt brandKey st.heap (OwnCell heap0 st) b i headers body list props ∧
      Content st.streams i headers body

theorem Described.mono {st st' : Copying} {b : Nat} {i : HostInstance}
    (h : Described brandKey heap0 st b i) (hb : b < st.heap.length) (hg : Grows st st') :
    Described brandKey heap0 st' b i := by
  obtain ⟨headers, body, list, props, hstamp, hcontent⟩ := h
  refine ⟨headers, body, list, props, hstamp.mono (hg.heap b hb) fun c hc => ?_, hcontent.mono hg⟩
  exact ⟨hc.mono hg, hg.heap c hc.2.1⟩

/-- The object has its copy: the descriptor of an instance, or an object with the stand-ins of its
values. -/
def Finished (brandKey : String) (heap0 : List (JsObject JsValue)) (st : Copying) (a : Nat) : Prop :=
  ∃ b o, st.seen a = some b ∧ heap0[a]? = some o ∧
    ((∃ i, o = .host i ∧ Described brandKey heap0 st b i) ∨
      ((∀ i, o ≠ .host i) ∧ (∀ proxy, o ≠ .refused proxy .throws) ∧
        st.heap[b]? = some (o.rebuilt (o.walked.map (Value.map (image st.seen)))) ∧
        ∀ c, .ref c ∈ o.walked → Covered heap0 st c))

theorem Finished.mono {st st' : Copying} {a : Nat} (h : Finished brandKey heap0 st a)
    (hg : Grows st st') (hinv : CopyInv heap0 st') : Finished brandKey heap0 st' a := by
  obtain ⟨b, o, hseen, ho, hcopy⟩ := h
  refine ⟨b, o, hg.seen a b hseen, ho, ?_⟩
  rcases hcopy with ⟨i, hi, hdescribed⟩ | ⟨hhost, hthrows, hcell, hcover⟩
  · have hb : b < st.heap.length := by
      obtain ⟨_, _, _, _, hstamp, -⟩ := hdescribed
      exact (List.getElem?_eq_some_iff.mp hstamp.atCell).1
    exact .inl ⟨i, hi, hdescribed.mono hb hg⟩
  · refine .inr ⟨hhost, hthrows, ?_, fun c hc => (hcover c hc).mono hg⟩
    have hsame : o.walked.map (Value.map (image st'.seen)) =
        o.walked.map (Value.map (image st.seen)) :=
      List.map_congr_left fun v hv =>
        Value.map_congr fun c hc => (hcover c (hc ▸ hv)).image hg hinv
    rw [hsame]
    exact hg.get hcell

/-! ### One call -/

/-- The objects that were not met yet. -/
def unseen (heap0 : List (JsObject JsValue)) (st : Copying) : Nat :=
  unmet heap0.length fun a => (st.seen a).isSome

theorem Grows.unseen_le {st st' : Copying} (h : Grows st st') : unseen heap0 st' ≤ unseen heap0 st :=
  unmet_mono fun a ha => by
    obtain ⟨b, hb⟩ := Option.isSome_iff_exists.mp ha
    rw [h.seen a b hb]
    rfl

/-- The next stream id. -/
def nextId (st : Copying) : Nat := (st.streams.map StreamSourceRegistry.nextId).getD 0

/-- What copying some values does to the state. -/
structure Copied (brandKey : String) (heap0 : List (JsObject JsValue)) (values : List JsValue)
    (st st' : Copying) : Prop where
  inv : CopyInv heap0 st'
  grows : Grows st st'
  covered : ∀ c, .ref c ∈ values → Covered heap0 st' c
  finished : ∀ a b, st.seen a = none → st'.seen a = some b →
    Finished brandKey heap0 st' a ∧ ∃ v ∈ values, Walk heap0 v a
  /-- Every id is that of an object met. -/
  ids : nextId st' + unseen heap0 st' ≤ nextId st + unseen heap0 st

theorem Copied.nothing {st : Copying} {values : List JsValue} (h : CopyInv heap0 st)
    (hcovered : ∀ c, .ref c ∈ values → Covered heap0 st c) :
    Copied brandKey heap0 values st st :=
  ⟨h, .refl st, hcovered, fun a b hnone hsome => by (rw [hnone] at hsome; cases hsome),
    Nat.le_refl _⟩

theorem Copied.append {st st' st'' : Copying} {v : JsValue} {values : List JsValue}
    (h : Copied brandKey heap0 [v] st st') (h' : Copied brandKey heap0 values st' st'') :
    Copied brandKey heap0 (v :: values) st st'' where
  inv := h'.inv
  grows := h.grows.trans h'.grows
  covered c hc := by
    rcases List.mem_cons.mp hc with heq | hc
    · exact (h.covered c (by simp [heq])).mono h'.grows
    · exact h'.covered c hc
  finished a b hnone hsome := by
    cases hmid : st'.seen a with
    | none =>
      obtain ⟨hfinished, w, hw, hwalk⟩ := h'.finished a b hmid hsome
      exact ⟨hfinished, w, List.mem_cons_of_mem v hw, hwalk⟩
    | some c =>
      obtain ⟨hfinished, w, hw, hwalk⟩ := h.finished a c hnone hmid
      rw [List.mem_singleton.mp hw] at hwalk
      exact ⟨hfinished.mono h'.grows h'.inv, v, List.mem_cons_self .., hwalk⟩
  ids := h'.ids.trans h.ids

theorem Copied.images {st st' st'' : Copying} {v : JsValue} {values : List JsValue}
    (h : Copied brandKey heap0 [v] st st') (h' : Copied brandKey heap0 values st' st'') :
    v.map (image st''.seen) = v.map (image st'.seen) :=
  Value.map_congr fun c hc => (h.covered c (by simp [hc])).image h'.grows h'.inv

/-- The values of an object, given what one call does. -/
theorem transformAll_copied {visit : JsValue → Copying → Except Halt (JsValue × Copying)}
    (hvisit : ∀ v st w st', CopyInv heap0 st → InHeap heap0 v → visit v st = .ok (w, st') →
      w = v.map (image st'.seen) ∧ Copied brandKey heap0 [v] st st')
    {values : List JsValue} {st st' : Copying} {ws : List JsValue} (hinv : CopyInv heap0 st)
    (hvalues : ∀ v ∈ values, InHeap heap0 v)
    (h : transformAll visit values st = .ok (ws, st')) :
    ws = values.map (Value.map (image st'.seen)) ∧ Copied brandKey heap0 values st st' := by
  induction values generalizing st st' ws with
  | nil =>
    cases h
    exact ⟨rfl, .nothing hinv fun c hc => absurd hc List.not_mem_nil⟩
  | cons v rest ih =>
    rw [transformAll] at h
    cases hfirst : visit v st with
    | error halt => rw [hfirst] at h; cases h
    | ok first =>
      obtain ⟨w, st1⟩ := first
      obtain ⟨hw, hcopied⟩ := hvisit v st w st1 hinv (hvalues v (List.mem_cons_self ..)) hfirst
      cases hrest : transformAll visit rest st1 with
      | error halt => rw [hfirst] at h; simp only [bind, Except.bind, hrest] at h; cases h
      | ok others =>
        obtain ⟨ws', st2⟩ := others
        rw [hfirst] at h
        simp only [bind, Except.bind, hrest] at h
        cases h
        obtain ⟨hws, hcopied'⟩ := ih hcopied.inv
          (fun u hu => hvalues u (List.mem_cons_of_mem v hu)) hrest
        refine ⟨?_, hcopied.append hcopied'⟩
        rw [List.map_cons, hcopied.images hcopied', ← hw, ← hws]

/-! ### Cells -/

theorem Grows.alloc (st : Copying) (o : JsObject JsValue) : Grows st (st.alloc o) where
  len := by simp [Copying.alloc]
  heap b hb := List.getElem?_append_left hb
  seen _ _ h := h
  fresh _ _ h := .inl h
  leg := rfl
  sources s h := ⟨s, h, List.prefix_refl _⟩

theorem CopyInv.grows {st st' : Copying} (h : CopyInv heap0 st) (hg : Grows st st')
    (hseen : st'.seen = st.seen) : CopyInv heap0 st' where
  old a ha := by rw [hg.heap a (Nat.lt_of_lt_of_le ha h.len), h.old a ha]
  len := Nat.le_trans h.len hg.len
  source := hseen ▸ h.source
  cell a b hs := by
    rw [hseen] at hs
    exact ⟨(h.cell a b hs).1, Nat.lt_of_lt_of_le (h.cell a b hs).2 hg.len⟩
  inj := hseen ▸ h.inj

theorem alloc_get (st : Copying) (o : JsObject JsValue) :
    (st.alloc o).heap[st.heap.length]? = some o := by
  simp [Copying.alloc]

theorem ownCell_alloc {st : Copying} (h : CopyInv heap0 st) (o : JsObject JsValue) :
    OwnCell heap0 (st.alloc o) st.heap.length := by
  refine ⟨h.len, by simp [Copying.alloc], fun a hs => ?_⟩
  exact absurd (h.cell a _ hs).2 (Nat.lt_irrefl _)

/-- A new cell is taken as the stand-in of an object that was not met yet. -/
def claim (st : Copying) (a : Nat) (o : JsObject JsValue) : Copying :=
  (st.alloc o).mark a st.heap.length

theorem Grows.claim {st : Copying} {a : Nat} (h : st.seen a = none) (o : JsObject JsValue) :
    Grows st (claim st a o) where
  len := (Grows.alloc st o).len
  heap := (Grows.alloc st o).heap
  seen c b hs := by
    have hne : c ≠ a := fun heq => by rw [heq, h] at hs; cases hs
    show (if c = a then _ else st.seen c) = some b
    rw [if_neg hne, hs]
  fresh c b hs := by
    replace hs : (if c = a then some st.heap.length else st.seen c) = some b := hs
    split at hs
    · cases hs
      exact .inr (Nat.le_refl _)
    · exact .inl hs
  leg := rfl
  sources s hs := ⟨s, hs, List.prefix_refl _⟩

theorem claim_seen (st : Copying) (a : Nat) (o : JsObject JsValue) :
    (claim st a o).seen a = some st.heap.length := if_pos rfl

theorem unseen_claim {st : Copying} {a : Nat} (ha : a < heap0.length) (hseen : st.seen a = none)
    (o : JsObject JsValue) : unseen heap0 (claim st a o) < unseen heap0 st :=
  unmet_mark ha hseen

theorem CopyInv.claim {st : Copying} {a : Nat} {source : JsObject JsValue} (h : CopyInv heap0 st)
    (ha : heap0[a]? = some source) (hkept : source.isKept = false) (o : JsObject JsValue) :
    CopyInv heap0 (claim st a o) where
  old := (h.grows (Grows.alloc st o) rfl).old
  len := (h.grows (Grows.alloc st o) rfl).len
  source c b hs := by
    replace hs : (if c = a then some st.heap.length else st.seen c) = some b := hs
    split at hs
    · next heq => exact ⟨source, heq ▸ ha, hkept⟩
    · exact h.source c b hs
  cell c b hs := by
    replace hs : (if c = a then some st.heap.length else st.seen c) = some b := hs
    split at hs
    · cases hs
      exact ⟨h.len, by simp [Iso4.claim, Copying.alloc, Copying.mark]⟩
    · exact (h.grows (Grows.alloc st o) rfl).cell c b hs
  inj c c' b hs hs' := by
    replace hs : (if c = a then some st.heap.length else st.seen c) = some b := hs
    replace hs' : (if c' = a then some st.heap.length else st.seen c') = some b := hs'
    split at hs <;> split at hs'
    · next hc hc' => rw [hc, hc']
    · cases hs
      exact absurd (h.cell c' _ hs').2 (Nat.lt_irrefl _)
    · cases hs'
      exact absurd (h.cell c _ hs).2 (Nat.lt_irrefl _)
    · exact h.inj c c' b hs hs'

/-! ### Descriptors -/

theorem materializeBody_sources {source : HostBody} {streams streams' : Option StreamSourceRegistry}
    {body : MaterializedBody} (h : materializeBody source streams = .ok (body, streams')) :
    streams' = streams ∨ ∃ s rest, streams = some s ∧ streams' = some (s.register rest).2 := by
  unfold materializeBody at h
  split at h
  · cases h
  · split at h
    · cases h
      exact .inl rfl
    · dsimp only at h
      split at h
      · cases h
      · cases h
        exact .inl rfl
      · next rest _ =>
        cases streams with
        | none => cases h
        | some s =>
          cases h
          exact .inr ⟨s, rest, rfl, rfl⟩

theorem register_nextId (s : StreamSourceRegistry) (source : BodySource) :
    (s.register source).2.nextId = s.nextId + 1 := rfl

/-- Reading a body keeps the registered sources and takes one id at most. -/
theorem describe_sources {i : HostInstance} {streams streams' : Option StreamSourceRegistry}
    {headers : List String} {body : MaterializedBody}
    (h : describe i streams = .ok (headers, body, streams')) :
    streams'.isSome = streams.isSome ∧
      (∀ s, streams = some s → ∃ s', streams' = some s' ∧ s.sources <+: s'.sources) ∧
      (streams'.map StreamSourceRegistry.nextId).getD 0 ≤
        (streams.map StreamSourceRegistry.nextId).getD 0 + 1 := by
  have hsame : streams' = streams → streams'.isSome = streams.isSome ∧
      (∀ s, streams = some s → ∃ s', streams' = some s' ∧ s.sources <+: s'.sources) ∧
      (streams'.map StreamSourceRegistry.nextId).getD 0 ≤
        (streams.map StreamSourceRegistry.nextId).getD 0 + 1 := by
    rintro rfl
    exact ⟨rfl, fun s hs => ⟨s, hs, List.prefix_refl _⟩, Nat.le_succ _⟩
  unfold describe at h
  cases hheaders : flatHeaders i.entries with
  | error message => rw [hheaders] at h; cases h
  | ok flat =>
    rw [hheaders] at h
    cases hbody : i.body with
    | none =>
      simp only [hbody, bind, Except.bind, pure, Except.pure] at h
      cases h
      exact hsame rfl
    | some source =>
      cases hread : materializeBody source streams with
      | error message =>
        simp only [hbody, hread, bind, Except.bind] at h
        cases h
      | ok result =>
        simp only [hbody, hread, bind, Except.bind, pure, Except.pure] at h
        cases h
        rcases materializeBody_sources hread with heq | ⟨s, rest, rfl, heq⟩
        · exact hsame heq
        · rw [heq]
          refine ⟨rfl, fun t ht => ?_, Nat.le_refl _⟩
          cases ht
          exact ⟨_, rfl, List.prefix_append _ _⟩

theorem bodyFields_grows (st : Copying) (body : MaterializedBody) :
    Grows st (bodyFields st body).2 ∧ (bodyFields st body).2.seen = st.seen ∧
      (CopyInv heap0 st → BodyAt (bodyFields st body).2.heap (OwnCell heap0 (bodyFields st body).2)
        (bodyFields st body).1 body) := by
  cases body with
  | null => exact ⟨.refl st, rfl, fun _ => rfl⟩
  | bytes data =>
    exact ⟨.alloc st _, rfl, fun h => ⟨st.heap.length, rfl, ownCell_alloc h _, alloc_get st _⟩⟩
  | stream id => exact ⟨.refl st, rfl, fun _ => rfl⟩

/-- The descriptor of an instance is its stand-in. -/
theorem toDescriptor_copied {i : HostInstance} {st st' : Copying} {a b : Nat}
    (hinv : CopyInv heap0 st) (hseen : st.seen a = none) (ha : heap0[a]? = some (.host i))
    (h : toDescriptor brandKey i st = .ok (b, st')) :
    (st'.mark a b).seen a = some b ∧ Copied brandKey heap0 [.ref a] st (st'.mark a b) := by
  unfold toDescriptor at h
  cases hdescribe : describe i st.streams with
  | error message => rw [hdescribe] at h; cases h
  | ok described =>
    obtain ⟨headers, body, streams⟩ := described
    rw [hdescribe] at h
    dsimp only at h
    obtain ⟨hleg, hsources, hid⟩ := describe_sources hdescribe
    -- The list, the bytes and the record are three steps of the heap.
    have hg0 : Grows st { st with streams } :=
      ⟨Nat.le_refl _, fun _ _ => rfl, fun _ _ hs => hs, fun _ _ hs => .inl hs, hleg, hsources⟩
    have hinv0 := hinv.grows hg0 rfl
    generalize hst1 : ({ st with streams } : Copying).alloc
      (.array (headers.map fun s => some (str s)) []) = st1 at h
    have hg1 : Grows { st with streams } st1 := hst1 ▸ Grows.alloc _ _
    have hinv1 : CopyInv heap0 st1 := hinv0.grows hg1 (hst1 ▸ rfl)
    have hlist : st1.heap[st.heap.length]? = some (.array (headers.map fun s => some (str s)) []) :=
      hst1 ▸ alloc_get { st with streams } _
    have hown : OwnCell heap0 st1 st.heap.length := hst1 ▸ ownCell_alloc hinv0 _
    obtain ⟨hg2, hseen2, hbody⟩ := @bodyFields_grows heap0 st1 body
    have hbody := hbody hinv1
    generalize hfields : bodyFields st1 body = fields at h hg2 hseen2 hbody
    have hinv2 := hinv1.grows hg2 hseen2
    cases h
    have hnone : fields.2.seen a = none := by rw [hseen2, ← hst1]; exact hseen
    generalize hrecord : JsObject.record true _ = record
    have hg3 : Grows fields.2 (claim fields.2 a record) := .claim hnone record
    have hstreams : fields.2.streams = streams := by
      rw [← hfields]
      cases body <;> exact hst1 ▸ rfl
    refine ⟨claim_seen fields.2 a record, ?_, hg0.trans (hg1.trans (hg2.trans hg3)), ?_, ?_, ?_⟩
    · exact hinv2.claim ha rfl record
    · intro c hc
      cases List.mem_singleton.mp hc
      exact .inl ⟨_, claim_seen fields.2 a record⟩
    · intro c d hnot hsome
      have heq : c = a := by
        by_contra hne
        replace hsome : (if c = a then some fields.2.heap.length else fields.2.seen c) = some d := hsome
        rw [if_neg hne, hseen2, ← hst1] at hsome
        exact absurd (hnot.symm.trans hsome) (by simp)
      subst heq
      refine ⟨⟨_, _, claim_seen fields.2 c record, ha, .inl ⟨i, rfl, headers, body, st.heap.length,
        fields.1, ?_, ?_⟩⟩, _, List.mem_singleton_self _, .root rfl⟩
      · have hstamp : StampAt brandKey (fields.2.alloc record).heap (OwnCell heap0 fields.2)
            fields.2.heap.length i headers body st.heap.length fields.1 := by
          refine ⟨(alloc_get fields.2 record).trans (congrArg some hrecord.symm),
            (Grows.alloc _ record).get (hg2.get hlist), hown.mono hg2, ?_⟩
          cases body with
          | null => exact hbody
          | bytes data =>
            obtain ⟨d, hprops, hownBytes, hbytes⟩ := hbody
            exact ⟨d, hprops, hownBytes, (Grows.alloc _ record).get hbytes⟩
          | stream id => exact hbody
        exact hstamp.mono rfl fun d hd => ⟨hd.mono hg3, rfl⟩
      · refine ⟨st.streams, streams, hdescribe, (hg0.trans (hg1.trans (hg2.trans hg3))).leg.symm,
          fun s hs => ?_⟩
        exact (hg1.trans (hg2.trans hg3)).sources s hs
    · have hless := unseen_claim (List.getElem?_eq_some_iff.mp ha).1 hnone record
      have hsame : unseen heap0 fields.2 = unseen heap0 st := by
        unfold unseen
        rw [hseen2, ← hst1]
        rfl
      have hnext : nextId (claim fields.2 a record) =
          (streams.map StreamSourceRegistry.nextId).getD 0 :=
        congrArg (fun s : Option StreamSourceRegistry =>
          (s.map StreamSourceRegistry.nextId).getD 0) hstreams
      have hold : nextId st = (st.streams.map StreamSourceRegistry.nextId).getD 0 := rfl
      show nextId (claim fields.2 a record) + unseen heap0 (claim fields.2 a record) ≤ _
      omega

/-! ### The copy -/

/-- The values of an object are copied after it was met, and then its copy is written. -/
theorem object_copied {st st' : Copying} {a : Nat} {o : JsObject JsValue} {ws : List JsValue}
    (hseen : st.seen a = none) (ha : heap0[a]? = some o) (hhost : ∀ i, o ≠ .host i) (hthrows : ∀ p, o ≠ .refused p .throws)
    (hws : ws = o.walked.map (Value.map (image st'.seen)))
    (h : Copied brandKey heap0 o.walked (claim st a (.record false [])) st') :
    (st'.write st.heap.length (o.rebuilt ws)).seen a = some st.heap.length ∧
      Copied brandKey heap0 [.ref a] st (st'.write st.heap.length (o.rebuilt ws)) := by
  set b := st.heap.length with hb
  set st'' := st'.write b (o.rebuilt ws) with hst''
  have hclaim : Grows st (claim st a (.record false [])) := .claim hseen _
  have hg := hclaim.trans h.grows
  have hsa : st'.seen a = some b := h.grows.seen a b (claim_seen st a _)
  have hcell := h.inv.cell a b hsa
  have hother : ∀ c, c ≠ b → st''.heap[c]? = st'.heap[c]? := fun c hc =>
    List.getElem?_set_ne (Ne.symm hc)
  have hat : st''.heap[b]? = some (o.rebuilt ws) := List.getElem?_set_self hcell.2
  have hlen : st''.heap.length = st'.heap.length := List.length_set
  have hg' : Grows st st'' := by
    refine ⟨hlen ▸ hg.len, fun c hc => ?_, hg.seen, hg.fresh, hg.leg, hg.sources⟩
    rw [hother c (Nat.ne_of_lt hc), hg.heap c hc]
  have hinv' : CopyInv heap0 st'' := by
    refine ⟨fun c hc => ?_, hlen ▸ h.inv.len, h.inv.source, fun c d hs => ?_, h.inv.inj⟩
    · rw [hother c (Nat.ne_of_lt (Nat.lt_of_lt_of_le hc hcell.1)), h.inv.old c hc]
    · rw [hlen]
      exact h.inv.cell c d hs
  have hfinished : Finished brandKey heap0 st'' a := by
    refine ⟨b, o, hsa, ha, .inr ⟨hhost, hthrows, ?_, h.covered⟩⟩
    rw [hat, hws]
    rfl
  have hids : nextId st'' + unseen heap0 st'' ≤ nextId st + unseen heap0 st :=
    h.ids.trans (Nat.add_le_add_left (Grows.unseen_le hclaim) _)
  refine ⟨hsa, hinv', hg', fun c hc => ?_, fun c d hnone hsome => ?_, hids⟩
  · cases List.mem_singleton.mp hc
    exact .inl ⟨b, hsa⟩
  · by_cases hca : c = a
    · rw [hca]
      exact ⟨hfinished, _, List.mem_singleton_self _, .root rfl⟩
    · have hstart : (claim st a (.record false [])).seen c = none := (if_neg hca).trans hnone
      obtain ⟨hdone, v, hv, hwalk⟩ := h.finished c d hstart hsome
      have hwalk' : Walk heap0 (.ref a) c :=
        Reach.child (.root rfl) (by rw [walkEdges_some ha]; exact hv) hwalk
      refine ⟨?_, _, List.mem_singleton_self _, hwalk'⟩
      -- The cells of what was finished before are not the one that is written.
      obtain ⟨e, p, hse, hp, hcopy⟩ := hdone
      have heb : e ≠ b := fun heq => hca (h.inv.inj c a b (heq ▸ hse) hsa)
      refine ⟨e, p, hse, hp, ?_⟩
      rcases hcopy with ⟨i, hi, headers, body, list, props, hstamp, hcontent⟩ |
        ⟨hhost', hthrows', hcopy, hcover⟩
      · refine .inl ⟨i, hi, headers, body, list, props, hstamp.mono (hother e heb) fun c hc => ?_,
          hcontent⟩
        exact ⟨⟨hc.1, hlen ▸ hc.2.1, hc.2.2⟩, hother c fun heq => hc.2.2 a (heq ▸ hsa)⟩
      · exact .inr ⟨hhost', hthrows', (hother e heb).trans hcopy, hcover⟩

theorem WfHeap.walked (hwf : WfHeap heap0) {a : Nat} {o : JsObject JsValue}
    (ha : heap0[a]? = some o) : ∀ v ∈ o.walked, InHeap heap0 v := by
  rintro v hv c rfl
  exact hwf.closed a o ha c (ref_mem_children hv)

/-- **What one call of the copy does.** -/
theorem transform_copied (hwf : WfHeap heap0) (fuel : Nat) :
    ∀ (v : JsValue) (st : Copying) (w : JsValue) (st' : Copying), CopyInv heap0 st →
      InHeap heap0 v → transform brandKey fuel v st = .ok (w, st') →
      w = v.map (image st'.seen) ∧ Copied brandKey heap0 [v] st st' := by
  -- On the fuel: the values of an object are visited with less of it.
  induction fuel with
  | zero =>
    intro v st w st' hinv _ h
    cases v with
    | prim p =>
      cases h
      exact ⟨rfl, .nothing hinv fun c hc => by cases List.mem_singleton.mp hc⟩
    | ref a => cases h
  | succ fuel ih =>
    intro v st w st' hinv hv h
    cases v with
    | prim p =>
      cases h
      exact ⟨rfl, .nothing hinv fun c hc => by cases List.mem_singleton.mp hc⟩
    | ref a =>
      rw [transform] at h
      have himage : ∀ {st' : Copying} {b : Nat}, st'.seen a = some b →
          (Value.ref b : JsValue) = (Value.ref a).map (image st'.seen) := by
        intro st' b hb
        rw [Value.map_ref, image, hb]
        rfl
      cases hseen : st.seen a with
      | some b =>
        rw [hseen] at h
        cases h
        refine ⟨himage hseen, .nothing hinv fun c hc => ?_⟩
        cases List.mem_singleton.mp hc
        exact .inl ⟨b, hseen⟩
      | none =>
        have hkeep : ∀ {o : JsObject JsValue}, heap0[a]? = some o → o.isKept = true →
            (Value.ref a : JsValue) = (Value.ref a).map (image st.seen) ∧
              Copied brandKey heap0 [.ref a] st st := by
          intro o ho hkept
          refine ⟨by rw [Value.map_ref, image, hseen]; rfl, .nothing hinv fun c hc => ?_⟩
          cases List.mem_singleton.mp hc
          exact .inr fun o' ho' => by rw [ho] at ho'; cases ho'; exact hkept
        rw [hseen] at h
        dsimp only at h
        rw [hinv.old a (hv a rfl)] at h
        split at h
        · next hnone => exact absurd (hv a rfl) (by simpa using hnone)
        · next i hi =>
          cases hdescriptor : toDescriptor brandKey i st with
          | error halt => rw [hdescriptor] at h; cases h
          | ok result =>
            obtain ⟨b, st1⟩ := result
            rw [hdescriptor] at h
            cases h
            obtain ⟨hb, hcopied⟩ := toDescriptor_copied hinv hseen hi hdescriptor
            exact ⟨himage hb, hcopied⟩
        · cases h
        · next o hhost hthrows ho =>
          split at h
          · next hkept =>
            cases h
            exact hkeep ho hkept
          · next hkept =>
            cases hall : transformAll (transform brandKey fuel) o.walked
                (claim st a (.record false [])) with
            | error halt =>
              rw [show (st.alloc (.record false [])).mark a st.heap.length =
                claim st a (.record false []) from rfl, hall] at h
              cases h
            | ok result =>
              obtain ⟨ws, st1⟩ := result
              rw [show (st.alloc (.record false [])).mark a st.heap.length =
                claim st a (.record false []) from rfl, hall] at h
              cases h
              have hkept' : o.isKept = false := by simpa using hkept
              obtain ⟨hws, hcopied⟩ := transformAll_copied ih (hinv.claim ho hkept' _)
                (hwf.walked ho) hall
              obtain ⟨hb, hcopied'⟩ := object_copied hseen ho (fun i heq => hhost i heq)
                (fun p heq => hthrows p heq) hws hcopied
              exact ⟨himage hb, hcopied'⟩

/-! ### Where the copy stops -/

/-- The copy cannot go on at an object, with this message. -/
def StopsAt (leg : Bool) (o : JsObject JsValue) (message : String) : Prop :=
  (∃ i streams, o = .host i ∧ streams.isSome = leg ∧ describe i streams = .error message) ∨
    (∃ p, o = .refused p .throws ∧ message = "entries called on incompatible receiver")

theorem transformAll_halts (hwf : WfHeap heap0) (fuel : Nat)
    (hvisit : ∀ v st halt, CopyInv heap0 st → InHeap heap0 v → unseen heap0 st < fuel →
      transform brandKey fuel v st = .error halt → ∃ a o message, Walk heap0 v a ∧
        heap0[a]? = some o ∧ halt = .thrown message ∧ StopsAt st.streams.isSome o message)
    {values : List JsValue} {st : Copying} {halt : Halt} (hinv : CopyInv heap0 st)
    (hvalues : ∀ v ∈ values, InHeap heap0 v) (hfuel : unseen heap0 st < fuel)
    (h : transformAll (transform brandKey fuel) values st = .error halt) :
    ∃ v ∈ values, ∃ a o message, Walk heap0 v a ∧ heap0[a]? = some o ∧ halt = .thrown message ∧
      StopsAt st.streams.isSome o message := by
  induction values generalizing st with
  | nil => cases h
  | cons v rest ih =>
    have hv := hvalues v (List.mem_cons_self ..)
    rw [transformAll] at h
    cases hfirst : transform brandKey fuel v st with
    | error halt' =>
      rw [hfirst] at h
      cases h
      exact ⟨v, List.mem_cons_self .., hvisit v st halt hinv hv hfuel hfirst⟩
    | ok first =>
      obtain ⟨w, st1⟩ := first
      obtain ⟨-, hcopied⟩ := transform_copied hwf fuel v st w st1 hinv hv hfirst
      cases hrest : transformAll (transform brandKey fuel) rest st1 with
      | ok others => rw [hfirst] at h; simp only [bind, Except.bind, hrest] at h; cases h
      | error halt' =>
        rw [hfirst] at h
        simp only [bind, Except.bind, hrest] at h
        cases h
        obtain ⟨u, hu, a, o, message, hwalk, ho, hhalt, hstops⟩ := ih hcopied.inv
          (fun u hu => hvalues u (List.mem_cons_of_mem v hu))
          (Nat.lt_of_le_of_lt hcopied.grows.unseen_le hfuel) hrest
        rw [hcopied.grows.leg] at hstops
        exact ⟨u, List.mem_cons_of_mem v hu, a, o, message, hwalk, ho, hhalt, hstops⟩

/-- **With fuel for every object the copy stops only where it must.** -/
theorem transform_halts (hwf : WfHeap heap0) (fuel : Nat) :
    ∀ (v : JsValue) (st : Copying) (halt : Halt), CopyInv heap0 st → InHeap heap0 v →
      unseen heap0 st < fuel → transform brandKey fuel v st = .error halt →
      ∃ a o message, Walk heap0 v a ∧ heap0[a]? = some o ∧ halt = .thrown message ∧
        StopsAt st.streams.isSome o message := by
  induction fuel with
  | zero => exact fun _ _ _ _ _ hfuel _ => absurd hfuel (Nat.not_lt_zero _)
  | succ fuel ih =>
    intro v st halt hinv hv hfuel h
    cases v with
    | prim p => cases h
    | ref a =>
      rw [transform] at h
      cases hseen : st.seen a with
      | some b => rw [hseen] at h; cases h
      | none =>
        rw [hseen] at h
        dsimp only at h
        rw [hinv.old a (hv a rfl)] at h
        split at h
        · cases h
        · next i hi =>
          cases hdescriptor : toDescriptor brandKey i st with
          | ok result => rw [hdescriptor] at h; cases h
          | error halt' =>
            rw [hdescriptor] at h
            cases h
            unfold toDescriptor at hdescriptor
            split at hdescriptor
            · next message hdescribe =>
              cases hdescriptor
              exact ⟨a, _, message, .root rfl, hi, rfl, .inl ⟨i, st.streams, rfl, rfl, hdescribe⟩⟩
            · cases hdescriptor
        · next p hp =>
          cases h
          exact ⟨a, _, _, .root rfl, hp, rfl, .inr ⟨p, rfl, rfl⟩⟩
        · next o hhost hthrows ho =>
          split at h
          · cases h
          · next hkept =>
            have hkept' : o.isKept = false := by simpa using hkept
            have hless : unseen heap0 (claim st a (.record false [])) < fuel :=
              Nat.lt_of_lt_of_le (unseen_claim (hv a rfl) hseen _) (Nat.le_of_lt_succ hfuel)
            cases hall : transformAll (transform brandKey fuel) o.walked
                (claim st a (.record false [])) with
            | ok result =>
              rw [show (st.alloc (.record false [])).mark a st.heap.length =
                claim st a (.record false []) from rfl, hall] at h
              cases h
            | error halt' =>
              rw [show (st.alloc (.record false [])).mark a st.heap.length =
                claim st a (.record false []) from rfl, hall] at h
              cases h
              obtain ⟨v, hmem, c, o', message, hwalk, ho', hhalt, hstops⟩ :=
                transformAll_halts hwf fuel ih (hinv.claim ho hkept' _) (hwf.walked ho) hless hall
              have hchild : v ∈ walkEdges heap0 a := by
                rw [walkEdges_some ho]
                exact hmem
              exact ⟨c, o', message, Reach.child (.root rfl) hchild hwalk, ho', hhalt, hstops⟩

/-! ### The scan -/

theorem mem_refs {values : List JsValue} {c : Nat} : c ∈ refs values ↔ .ref c ∈ values := by
  unfold refs
  rw [List.mem_filterMap]
  constructor
  · rintro ⟨v, hv, heq⟩
    cases v with
    | prim p => cases heq
    | ref a =>
      cases heq
      exact hv
  · exact fun h => ⟨.ref c, h, rfl⟩

/-- What the scan skips, and the object it stops at. -/
theorem dropWhile_cases (p : Nat → Bool) (stack : List Nat) :
    (stack.dropWhile p = [] ∧ ∀ a ∈ stack, p a = true) ∨
      ∃ skipped a rest, stack.dropWhile p = a :: rest ∧ stack = skipped ++ a :: rest ∧
        p a = false ∧ ∀ b ∈ skipped, p b = true := by
  induction stack with
  | nil => exact .inl ⟨rfl, fun _ h => absurd h List.not_mem_nil⟩
  | cons b stack ih =>
    cases hb : p b with
    | false => exact .inr ⟨[], b, stack, by simp [hb], rfl, hb, by simp⟩
    | true =>
      rw [List.dropWhile_cons_of_pos hb]
      rcases ih with ⟨heq, hall⟩ | ⟨skipped, a, rest, heq, hstack, ha, hall⟩
      · refine .inl ⟨heq, fun c hc => ?_⟩
        rcases List.mem_cons.mp hc with rfl | hc
        · exact hb
        · exact hall c hc
      · refine .inr ⟨b :: skipped, a, rest, heq, by rw [hstack]; rfl, ha, fun c hc => ?_⟩
        rcases List.mem_cons.mp hc with rfl | hc
        · exact hb
        · exact hall c hc

/-- Objects that hold no host type, and whose values are among them. -/
structure Innocent (heap : List (JsObject JsValue)) (among : Nat → Prop) (a : Nat) : Prop where
  node : ∃ o, heap[a]? = some o ∧ o.forcesCopy = false ∧
    ∀ c, .ref c ∈ o.walked → c < heap.length → among c

theorem scan_sound {heap : List (JsObject JsValue)} {fuel : Nat} :
    ∀ {stack seen : List Nat}, scan heap fuel stack seen = true →
      ∃ a ∈ stack, ∃ b o, Walk heap (.ref a) b ∧ heap[b]? = some o ∧ o.forcesCopy = true := by
  induction fuel with
  | zero =>
    intro stack seen h
    cases h
  | succ fuel ih =>
    intro stack seen h
    rw [scan] at h
    rcases dropWhile_cases (fun a => seen.contains a || decide (heap.length ≤ a)) stack with
      ⟨heq, -⟩ | ⟨skipped, a, rest, heq, hstack, -, -⟩
    · rw [heq] at h
      cases h
    · rw [heq] at h
      have hmem : a ∈ stack := by rw [hstack]; simp
      dsimp only at h
      split at h
      · cases h
      · next o ho =>
        split at h
        · next hforces => exact ⟨a, hmem, a, o, .root rfl, ho, hforces⟩
        · obtain ⟨c, hc, b, p, hwalk, hp, hforces⟩ := ih h
          rcases List.mem_append.mp hc with hc | hc
          · have hchild : .ref c ∈ walkEdges heap a := by
              rw [walkEdges_some ho]
              exact mem_refs.mp (List.mem_reverse.mp hc)
            exact ⟨a, hmem, b, p, Reach.child (.root rfl) hchild hwalk, hp, hforces⟩
          · exact ⟨c, by rw [hstack]; simp [hc], b, p, hwalk, hp, hforces⟩

theorem scan_complete {heap : List (JsObject JsValue)} {fuel : Nat} :
    ∀ {stack seen : List Nat}, unmet heap.length (fun a => seen.contains a) < fuel →
      (∀ a ∈ seen, Innocent heap (fun c => c ∈ seen ∨ c ∈ stack) a) →
      scan heap fuel stack seen = false →
      ∃ among : Nat → Prop, (∀ a, a ∈ seen ∨ a ∈ stack → a < heap.length → among a) ∧
        ∀ a, among a → Innocent heap among a := by
  induction fuel with
  | zero => exact fun hfuel => absurd hfuel (Nat.not_lt_zero _)
  | succ fuel ih =>
    intro stack seen hfuel hseen h
    rw [scan] at h
    rcases dropWhile_cases (fun a => seen.contains a || decide (heap.length ≤ a)) stack with
      ⟨heq, hall⟩ | ⟨skipped, a, rest, heq, hstack, ha, hskipped⟩
    · -- Nothing is left: what was seen is closed.
      have hstack : ∀ a ∈ stack, a < heap.length → a ∈ seen := by
        intro a hmem hlt
        have hp := hall a hmem
        simp only [Bool.or_eq_true, List.contains_iff_mem, decide_eq_true_eq] at hp
        exact hp.resolve_right (Nat.not_le.mpr hlt)
      refine ⟨fun a => a ∈ seen, fun a hmem hlt => hmem.elim id fun hs => hstack a hs hlt,
        fun a hmem => ?_⟩
      obtain ⟨o, ho, hforces, hchildren⟩ := (hseen a hmem).node
      exact ⟨o, ho, hforces, fun c hc hlt => (hchildren c hc hlt).elim id fun hs => hstack c hs hlt⟩
    · rw [heq] at h
      simp only [Bool.or_eq_false_iff, decide_eq_false_iff_not, Nat.not_le] at ha
      obtain ⟨hnew, hlt⟩ := ha
      obtain ⟨o, ho⟩ : ∃ o, heap[a]? = some o := ⟨heap[a], List.getElem?_eq_getElem hlt⟩
      dsimp only at h
      rw [ho] at h
      dsimp only at h
      split at h
      · cases h
      · next hforces =>
        have hless : unmet heap.length (fun b => (a :: seen).contains b) < fuel := by
          refine Nat.lt_of_lt_of_le (unmet_lt (fun b hb => ?_) hlt hnew ?_) (Nat.le_of_lt_succ hfuel)
          · simp only [List.contains_iff_mem] at hb ⊢
            exact List.mem_cons_of_mem a hb
          · simp
        have hinv : ∀ b ∈ a :: seen, Innocent heap
            (fun c => c ∈ a :: seen ∨ c ∈ (refs o.walked).reverse ++ rest) b := by
          intro b hb
          rcases List.mem_cons.mp hb with rfl | hb
          · refine ⟨o, ho, by simpa using hforces, fun c hc _ => .inr ?_⟩
            exact List.mem_append_left _ (List.mem_reverse.mpr (mem_refs.mpr hc))
          · obtain ⟨p, hp, hfree, hchildren⟩ := (hseen b hb).node
            refine ⟨p, hp, hfree, fun c hc hcl => ?_⟩
            rcases hchildren c hc hcl with hs | hs
            · exact .inl (List.mem_cons_of_mem a hs)
            · rw [hstack, List.mem_append, List.mem_cons] at hs
              rcases hs with hs | rfl | hs
              · have hp := hskipped c hs
                simp only [Bool.or_eq_true, List.contains_iff_mem, decide_eq_true_eq] at hp
                exact .inl (List.mem_cons_of_mem a (hp.resolve_right (Nat.not_le.mpr hcl)))
              · exact .inl (List.mem_cons_self ..)
              · exact .inr (List.mem_append_right _ hs)
        obtain ⟨among, hstart, hclosed⟩ := ih hless hinv h
        refine ⟨among, fun b hb hbl => ?_, hclosed⟩
        rcases hb with hb | hb
        · exact hstart b (.inl (List.mem_cons_of_mem a hb)) hbl
        · rw [hstack, List.mem_append, List.mem_cons] at hb
          rcases hb with hb | rfl | hb
          · have hp := hskipped b hb
            simp only [Bool.or_eq_true, List.contains_iff_mem, decide_eq_true_eq] at hp
            exact hstart b (.inl (List.mem_cons_of_mem a (hp.resolve_right (Nat.not_le.mpr hbl)))) hbl
          · exact hstart b (.inl (List.mem_cons_self ..)) hbl
          · exact hstart b (.inr (List.mem_append_right _ hb)) hbl

/-- **The scan finds what forces a copy, wherever it stands.** -/
theorem hasHostType_iff {heap : List (JsObject JsValue)} (hwf : WfHeap heap) {v : JsValue}
    (hv : InHeap heap v) :
    hasHostType heap v = true ↔
      ∃ a o, Walk heap v a ∧ heap[a]? = some o ∧ o.forcesCopy = true := by
  unfold hasHostType
  constructor
  · intro h
    obtain ⟨a, ha, b, o, hwalk, ho, hforces⟩ := scan_sound h
    have heq : v = .ref a := (List.mem_singleton.mp (mem_refs.mp ha)).symm
    exact ⟨b, o, heq ▸ hwalk, ho, hforces⟩
  · rintro ⟨a, o, hwalk, ho, hforces⟩
    by_contra hfalse
    have hfuel : unmet heap.length (fun a => ([] : List Nat).contains a) < heap.length + 1 :=
      Nat.lt_succ_of_le unmet_le_self
    obtain ⟨among, hstart, hclosed⟩ := scan_complete hfuel
      (fun a ha => absurd ha List.not_mem_nil) (by simpa using hfalse)
    -- The innocent objects are closed, so a walk never leaves them.
    have hall : ∀ a, Walk heap v a → among a := by
      intro a hwalk
      induction hwalk with
      | root heq => exact hstart _ (.inr (mem_refs.mpr (by simp [heq]))) (hv _ heq)
      | @step a b _ hmem ih =>
        obtain ⟨o, ho, -, hchildren⟩ := (hclosed a ih).node
        rw [walkEdges_some ho] at hmem
        exact hchildren b hmem (hwf.closed a o ho b (ref_mem_children hmem))
    obtain ⟨o', ho', hfree, -⟩ := (hclosed a (hall a hwalk)).node
    rw [ho] at ho'
    cases ho'
    rw [hforces] at hfree
    cases hfree

/-! ### The whole value -/

/-- The copy of everything a value reaches. -/
structure WholeCopy (brandKey : String) (heap0 : List (JsObject JsValue)) (v : JsValue)
    (streams : Option StreamSourceRegistry) (st : Copying) : Prop where
  inv : CopyInv heap0 st
  covered : ∀ a, Walk heap0 v a → Covered heap0 st a
  finished : ∀ a b, st.seen a = some b → Finished brandKey heap0 st a ∧ Walk heap0 v a
  leg : st.streams.isSome = streams.isSome
  ids : nextId st ≤ (streams.map StreamSourceRegistry.nextId).getD 0 + heap0.length

/-- What is left as it is has nothing to walk through. -/
theorem walked_of_kept {o : JsObject JsValue} (h : o.isKept = true) : o.walked = [] := by
  cases o with
  | native _ => rfl
  | error _ _ _ => rfl
  | refused _ view => cases view <;> first | rfl | cases h
  | _ => cases h

theorem Covered.step {st : Copying} {v : JsValue}
    (hfinished : ∀ a b, st.seen a = some b → Finished brandKey heap0 st a ∧ Walk heap0 v a)
    {a c : Nat} {o : JsObject JsValue} (ha : heap0[a]? = some o) (h : Covered heap0 st a)
    (hc : .ref c ∈ o.walked) : Covered heap0 st c := by
  rcases h with ⟨b, hb⟩ | hkept
  · obtain ⟨⟨_, o', _, ho', hcopy⟩, -⟩ := hfinished a b hb
    rw [ha] at ho'
    cases ho'
    rcases hcopy with ⟨i, rfl, -⟩ | ⟨-, -, -, hcover⟩
    · exact absurd hc List.not_mem_nil
    · exact hcover c hc
  · rw [walked_of_kept (hkept o ha)] at hc
    exact absurd hc List.not_mem_nil

/-- **The copy of a whole value**, or where it stops. -/
theorem transform_whole (hwf : WfHeap heap0) {v : JsValue} (hv : InHeap heap0 v)
    (streams : Option StreamSourceRegistry) :
    match transform brandKey (heap0.length + 1) v ⟨heap0, fun _ => none, streams⟩ with
    | .ok (w, st) => w = v.map (image st.seen) ∧ WholeCopy brandKey heap0 v streams st
    | .error halt => ∃ a o message, Walk heap0 v a ∧ heap0[a]? = some o ∧ halt = .thrown message ∧
        StopsAt streams.isSome o message := by
  have hstart : CopyInv heap0 ⟨heap0, fun _ => none, streams⟩ :=
    ⟨fun _ _ => rfl, Nat.le_refl _, fun _ _ h => (nomatch h), fun _ _ h => (nomatch h),
      fun _ _ _ h => (nomatch h)⟩
  have hunseen : unseen heap0 ⟨heap0, fun _ => none, streams⟩ ≤ heap0.length := unmet_le_self
  split
  · next w st h =>
    obtain ⟨hw, hcopied⟩ := transform_copied hwf _ v _ w st hstart hv h
    have hfinished : ∀ a b, st.seen a = some b → Finished brandKey heap0 st a ∧ Walk heap0 v a := by
      intro a b hb
      obtain ⟨hdone, u, hu, hwalk⟩ := hcopied.finished a b rfl hb
      exact ⟨hdone, List.mem_singleton.mp hu ▸ hwalk⟩
    refine ⟨hw, hcopied.inv, fun a hwalk => ?_, hfinished, hcopied.grows.leg, ?_⟩
    · induction hwalk with
      | root heq => exact hcopied.covered _ (by simp [heq])
      | @step a c _ hmem ih =>
        cases ho : heap0[a]? with
        | none => rw [walkEdges, ho] at hmem; exact absurd hmem List.not_mem_nil
        | some o =>
          rw [walkEdges_some ho] at hmem
          exact Covered.step hfinished ho ih hmem
    · have hids := hcopied.ids
      have hnext : nextId ⟨heap0, fun _ => none, streams⟩ =
        (streams.map StreamSourceRegistry.nextId).getD 0 := rfl
      omega
  · next halt h =>
    exact transform_halts hwf _ v _ halt hstart hv (Nat.lt_succ_of_le hunseen) h

end Copy

end Iso4
