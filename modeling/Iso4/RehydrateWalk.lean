/-
What the walk over a received value does.

The received graph is a host graph under a renaming, with a stamped object where the host had an
instance.  At every moment of the walk the objects that were met have their stand-ins: an instance
with the fields of the stamped object, or the object itself; an object that is neither pending nor
being read holds the stand-ins of its values.

* `visit_spec` — what one visit does;
* `walk_spec` — the walk ends with nothing pending;
* `rehydrate_spec` — every object has its stand-in, and holds stand-ins only.
-/
import Iso4.Rehydrate
import Iso4.MaterializeCopy

namespace Iso4

open Graph Js

/-! ### Refilled containers -/

/-- A property is set in its place. -/
theorem setProp_middle {done rest : List (String × JsValue)} {prop : String × JsValue} (w : JsValue)
    (h : ((done ++ prop :: rest).map Prod.fst).Nodup) :
    setProp (done ++ prop :: rest) prop.1 w = done ++ (prop.1, w) :: rest := by
  rw [List.map_append, List.map_cons, List.nodup_append, List.nodup_cons] at h
  obtain ⟨-, ⟨hrest, -⟩, hdone⟩ := h
  have hsame : ∀ props : List (String × JsValue), prop.1 ∉ props.map Prod.fst →
      props.map (fun other => if other.1 = prop.1 then (prop.1, w) else other) = props := by
    intro props hnot
    refine (List.map_congr_left fun other hother => ?_).trans (List.map_id _)
    have hne : other.1 ≠ prop.1 := fun heq => hnot (heq ▸ List.mem_map_of_mem hother)
    rw [if_neg hne]
    rfl
  have hdone' : prop.1 ∉ done.map Prod.fst := fun hmem => hdone _ hmem prop.1 (by simp) rfl
  unfold setProp
  rw [if_pos (by simp), List.map_append, List.map_cons, hsame done hdone', hsame rest hrest, if_pos rfl]

theorem replaceProps_eq {props : List (String × JsValue)} {stands : List (Option JsValue)}
    (hkeys : (props.map Prod.fst).Nodup) (hlen : props.length = stands.length) :
    replaceProps props stands = (props.map Prod.fst).zip (replaced (props.map Prod.snd) stands) := by
  have hfold : ∀ (props done : List (String × JsValue)) (stands : List (Option JsValue)),
      ((done ++ props).map Prod.fst).Nodup → props.length = stands.length →
      (props.zip stands).foldl (fun all entry => replaceProp all entry.1 entry.2) (done ++ props) =
        done ++ (props.map Prod.fst).zip (replaced (props.map Prod.snd) stands) := by
    intro props
    induction props with
    | nil =>
      intro done stands _ _
      simp
    | cons prop props ih =>
      intro done stands hkeys hlen
      cases stands with
      | nil => cases hlen
      | cons stand stands =>
        have hset : replaceProp (done ++ prop :: props) prop stand =
            done ++ [(prop.1, stand.getD prop.2)] ++ props := by
          cases stand with
          | none => simp [replaceProp]
          | some w =>
            rw [replaceProp, setProp_middle w hkeys]
            simp
        have hrest := ih (done ++ [(prop.1, stand.getD prop.2)]) stands (by simpa using hkeys)
          (by simpa using hlen)
        rw [List.zip_cons_cons, List.foldl_cons]
        dsimp only
        rw [hset, hrest]
        simp [replaced]
  have h := hfold props [] stands (by simpa using hkeys) hlen
  rw [List.nil_append, List.nil_append] at h
  exact h

/-- What the walk goes through: objects of a graph that can be received. -/
def JsObject.Receivable : JsObject JsValue → Prop
  | .native _ => True
  | o => o.Plain

theorem visited_eq {o : JsObject JsValue} (h : o.Receivable) : o.visited = o.children := by
  cases o with
  | array elements named => exact walked_of_plain (o := .array elements named) h
  | record _ _ => rfl
  | map _ => rfl
  | set _ => rfl
  | native _ => rfl
  | _ => exact h.elim

theorem JsObject.Receivable.mapValues (f : JsValue → JsValue) {o : JsObject JsValue}
    (h : o.Receivable) : (o.mapValues f).Receivable := by
  cases o with
  | array elements named =>
    obtain ⟨helements, rfl⟩ := h
    refine ⟨fun element helement => ?_, rfl⟩
    obtain ⟨old, hold, rfl⟩ := List.mem_map.mp helement
    simpa using helements old hold
  | record _ _ => trivial
  | map _ => trivial
  | set _ => trivial
  | native _ => trivial
  | _ => exact h.elim

theorem visited_mapValues (f : JsValue → JsValue) {o : JsObject JsValue} (h : o.Receivable) :
    (o.mapValues f).visited = o.children.map f := by
  rw [visited_eq (h.mapValues f), JsObject.children_mapValues]

theorem replaced_none {values : List JsValue} {stands : List (Option JsValue)}
    (hlen : stands.length = values.length) (h : stands.all Option.isNone = true) :
    replaced values stands = values := by
  induction values generalizing stands with
  | nil => exact List.zipWith_nil_left
  | cons v values ih =>
    cases stands with
    | nil => cases hlen
    | cons stand stands =>
      rw [List.all_cons, Bool.and_eq_true] at h
      rw [Option.isNone_iff_eq_none] at h
      have hrest := ih (by simpa using hlen) h.2
      unfold replaced at hrest ⊢
      rw [List.zipWith_cons_cons, hrest, h.1]
      rfl

theorem zipWith_some (values : List JsValue) (stands : List (Option JsValue)) :
    List.zipWith (fun element stand => if Option.isSome stand then stand else element)
      (values.map some) stands = (replaced values stands).map some := by
  induction values generalizing stands with
  | nil => rfl
  | cons v values ih =>
    cases stands with
    | nil => rfl
    | cons stand stands =>
      unfold replaced at ih ⊢
      rw [List.map_cons, List.zipWith_cons_cons, List.zipWith_cons_cons, ih, List.map_cons]
      cases stand <;> rfl

/-- **A refilled container holds the stand-ins**, when these are distinct for distinct values. -/
theorem refilled_eq {o : JsObject JsValue} (h : o.Receivable) (hwf : o.Wf) {f g : Nat → Nat}
    {stands : List (Option JsValue)} (hlen : stands.length = o.children.length)
    (hstands : replaced (o.children.map (Value.map f)) stands = o.children.map (Value.map g))
    (hg : ∀ a b, .ref a ∈ o.children → .ref b ∈ o.children → g a = g b → a = b) :
    (o.mapValues (Value.map f)).refilled stands = o.mapValues (Value.map g) := by
  by_cases hnone : stands.all Option.isNone = true
  · -- No value is replaced, so the two renamings agree.
    rw [replaced_none (by simpa using hlen) hnone, List.map_inj_left] at hstands
    unfold JsObject.refilled
    rw [if_pos hnone]
    exact JsObject.mapValues_congr hstands
  · unfold JsObject.refilled
    rw [if_neg hnone]
    have hcopy : o.Plain → (o.rebuilt (o.children.map (Value.map g))).written =
        o.written.map (JsObject.mapValues (Value.map g)) := fun hplain =>
      walked_of_plain hplain ▸ written_rebuilt hplain hwf hg
    cases o with
    | record ordinary props =>
      have hlen' : (mapProps (Value.map f) props).length = stands.length := by
        simpa [mapProps, JsObject.children] using hlen.symm
      have hkeys : (mapProps (Value.map f) props).map Prod.fst = props.map Prod.fst := by
        simp [mapProps, Function.comp_def]
      show JsObject.record ordinary (replaceProps (mapProps (Value.map f) props) stands) = _
      rw [replaceProps_eq (hkeys ▸ hwf) hlen', hkeys, map_snd_mapProps]
      show JsObject.record ordinary ((props.map Prod.fst).zip
        (replaced ((JsObject.record ordinary props).children.map (Value.map f)) stands)) = _
      rw [hstands]
      exact congrArg (JsObject.record ordinary) (zip_map_fst_snd _ props)
    | array elements named =>
      obtain ⟨helements, rfl⟩ := h
      have hsome := some_children helements
      generalize (JsObject.array elements []).children = values at hstands hsome
      have hmap : ∀ F : JsValue → JsValue,
          elements.map (Option.map F) = (values.map F).map some := by
        intro F
        rw [← hsome, List.map_map, List.map_map]
        rfl
      show JsObject.array (List.zipWith _ (elements.map (Option.map (Value.map f))) stands) [] =
        JsObject.array (elements.map (Option.map (Value.map g))) []
      rw [hmap, hmap, zipWith_some, hstands]
    | map entries =>
      have hflat : ((entries.map fun entry => (entry.1.map f, entry.2.map f)).flatMap
          fun entry => [entry.1, entry.2]) = (JsObject.map entries).children.map (Value.map f) :=
        (JsObject.children_mapValues (Value.map f) (JsObject.map entries))
      show JsObject.map ((pairs (replaced ((entries.map fun entry =>
        (entry.1.map f, entry.2.map f)).flatMap fun entry => [entry.1, entry.2]) stands)).foldl
        (fun entries entry => mapSet entries entry.1 entry.2) []) = _
      rw [hflat, hstands]
      exact Option.some.inj (hcopy trivial)
    | set items =>
      show JsObject.set ((replaced (items.map (Value.map f)) stands).foldl setAdd []) = _
      rw [show items = (JsObject.set items).children from rfl, hstands]
      exact Option.some.inj (hcopy trivial)
    | native leaf =>
      cases stands with
      | nil => exact absurd rfl hnone
      | cons stand stands => cases hlen
    | _ => exact h.elim

/-! ### Instances -/

/-- The properties of a descriptor besides its stamp. -/
def descriptorNames : List String :=
  ["url", "method", "status", "statusText", "headers", "body", "bodyStream"]

theorem brandKey_ne (token : List UInt8) : ∀ name ∈ descriptorNames, name ≠ brandKeyForToken token := by
  intro name hname heq
  have hhead : name.toList.head? = some '_' := by
    rw [heq, brandKeyForToken, brandPrefix, String.toList_append]
    rfl
  have hall : ∀ name ∈ descriptorNames, name.toList.head? ≠ some '_' := by decide
  exact hall name hname hhead

/-- The value of a body field. -/
def BodyValue (heap : List (JsObject JsValue)) (v : JsValue) : MaterializedBody → Prop
  | .null => v = .prim .null
  | .bytes data => ∃ c : Nat, v = .ref c ∧ heap[c]? = some (.native (.buffer .uint8Array data))
  | .stream id => ∃ c : Nat, v = .ref c ∧ heap[c]? = some (.bodyStream id)

/-- A sandbox instance with the fields of a host instance, its header list and its body. -/
def InstanceAt (heap : List (JsObject JsValue)) (b list : Nat) (body : MaterializedBody) :
    HostInstance → Prop
  | .headers _ => heap[b]? = some (.headers (.ref list))
  | .request url method _ _ => ∃ (h : Nat) (v : JsValue),
      heap[b]? = some (.request (str url) (str method) (.ref h) v) ∧
        heap[h]? = some (.headers (.ref list)) ∧ BodyValue heap v body
  | .response status statusText _ _ => ∃ (h : Nat) (v : JsValue),
      heap[b]? = some (.response status.toNat (str statusText) (.ref h) v) ∧
        heap[h]? = some (.headers (.ref list)) ∧ BodyValue heap v body

theorem BodyValue.mono {heap heap' : List (JsObject JsValue)} {v : JsValue} {body : MaterializedBody}
    (h : BodyValue heap v body)
    (hext : ∀ (c : Nat) (o : JsObject JsValue), heap[c]? = some o → heap'[c]? = some o) :
    BodyValue heap' v body := by
  cases body with
  | null => exact h
  | bytes data =>
    obtain ⟨c, hv, hc⟩ := h
    exact ⟨c, hv, hext c _ hc⟩
  | stream id =>
    obtain ⟨c, hv, hc⟩ := h
    exact ⟨c, hv, hext c _ hc⟩

/-- The content of an instance can be received: a running sandbox for a stream, a list of pairs. -/
structure Fits (running : Bool) (i : HostInstance) (headers : List String) (body : MaterializedBody) :
    Prop where
  even : headers.length % 2 = 0
  short : headers.length / 2 ≤ maxHeaderEntries
  bodyless : i.body = none → body = .null
  stream : ∀ id, body = .stream id → running = true ∧ id < 2 ^ 32

theorem uint32_int {n : Nat} (h : n < 2 ^ 32) : (Prim.int n).uint32 = some n := by
  simp only [Prim.int, Prim.uint32, Nat.div_one, Nat.mod_one, true_and]
  rw [if_pos h]

theorem headerList_ok {heap : List (JsObject JsValue)} {list : Nat} {headers : List String}
    (hlist : heap[list]? = some (.array (headers.map fun s => some (str s)) []))
    (heven : headers.length % 2 = 0) (hshort : headers.length / 2 ≤ maxHeaderEntries) :
    headerList heap (.ref list) = .ok () := by
  unfold headerList
  simp [hlist, heven, Nat.not_lt.mpr hshort]

section Building

variable {brandKey : String} {running : Bool}

/-- The fields of a stamped object, by name. -/
structure Fields (brandKey : String) (i : HostInstance) (list : Nat)
    (bodyProps props : List (String × JsValue)) : Prop where
  headers : descriptorField props "headers" = .ref list
  body : props.lookup "body" = bodyProps.lookup "body"
  bodyStream : props.lookup "bodyStream" = bodyProps.lookup "bodyStream"
  tag : uint32Field props brandKey = some i.fields.1
  request : ∀ url method entries body, i = .request url method entries body →
    descriptorField props "url" = str url ∧ descriptorField props "method" = str method
  response : ∀ status statusText entries body, i = .response status statusText entries body →
    descriptorField props "status" = .prim (.int status.toNat) ∧
      descriptorField props "statusText" = str statusText

theorem fields_of_stamp (hkey : ∀ name ∈ descriptorNames, name ≠ brandKey) (i : HostInstance)
    (list : Nat) (bodyProps : List (String × JsValue)) :
    Fields brandKey i list bodyProps ((brandKey, .prim (.int i.fields.1)) ::
      (i.fields.2 ++ ("headers", .ref list) :: bodyProps)) := by
  have hne : ∀ name ∈ descriptorNames, (name == brandKey) = false := fun name hname =>
    beq_eq_false_iff_ne.mpr (hkey name hname)
  have hurl := hne "url" (by decide)
  have hmethod := hne "method" (by decide)
  have hstatus := hne "status" (by decide)
  have htext := hne "statusText" (by decide)
  have hheaders := hne "headers" (by decide)
  have hbody := hne "body" (by decide)
  have hstream := hne "bodyStream" (by decide)
  have htag : i.fields.1 < 2 ^ 32 := by
    cases i <;> simp [HostInstance.fields, tagHeaders, tagRequest, tagResponse]
  refine ⟨?_, ?_, ?_, ?_, ?_, ?_⟩
  · cases i <;> simp [descriptorField, List.lookup_cons, HostInstance.fields, hheaders]
  · cases i <;> simp [List.lookup_cons, HostInstance.fields, hbody]
  · cases i <;> simp [List.lookup_cons, HostInstance.fields, hstream]
  · simp [uint32Field, uint32_int htag]
  · rintro url method entries body rfl
    simp [descriptorField, List.lookup_cons, HostInstance.fields, hurl, hmethod]
  · rintro status statusText entries body rfl
    simp [descriptorField, List.lookup_cons, HostInstance.fields, hstatus, htext]

theorem hydratedBody_ok {own : Nat → Prop} {props bodyProps : List (String × JsValue)}
    {body : MaterializedBody} {st : Walking} (hbody : BodyAt st.heap own bodyProps body)
    (hlookup : props.lookup "body" = bodyProps.lookup "body")
    (hstream : props.lookup "bodyStream" = bodyProps.lookup "bodyStream")
    (hfits : ∀ id, body = .stream id → running = true ∧ id < 2 ^ 32) :
    ∃ v cells st', hydratedBody running props st = .ok (v, st') ∧ st'.heap = st.heap ++ cells ∧
      st'.seen = st.seen ∧ st'.pending = st.pending ∧ BodyValue st'.heap v body := by
  unfold hydratedBody uint32Field descriptorField
  rw [hlookup, hstream]
  cases body with
  | null =>
    cases hbody
    exact ⟨.prim .null, [], st, rfl, (List.append_nil _).symm, rfl, rfl, rfl⟩
  | bytes data =>
    obtain ⟨c, rfl, -, hcell⟩ := hbody
    refine ⟨.ref c, [], st, ?_, (List.append_nil _).symm, rfl, rfl, c, rfl, hcell⟩
    simp [List.lookup_cons, checkBody, hcell, bind, Except.bind, pure, Except.pure]
  | stream id =>
    cases hbody
    obtain ⟨hrunning, hid⟩ := hfits id rfl
    refine ⟨.ref st.heap.length, [.bodyStream id],
      { st with heap := st.heap ++ [.bodyStream id], hydrated := st.hydrated ++ [id] }, ?_, rfl, rfl,
      rfl, st.heap.length, rfl, by simp⟩
    have hstreamId : List.lookup "bodyStream"
        [("body", Value.prim Prim.null), ("bodyStream", Value.prim (Prim.int id))] =
          some (.prim (.int id)) := rfl
    rw [hstreamId]
    simp only [hrunning, uint32_int hid]
    rfl

/-- The instance of a stamped object is built behind the heap. -/
theorem buildFromDescriptor_ok (hkey : ∀ name ∈ descriptorNames, name ≠ brandKey)
    {own : Nat → Prop} {b : Nat} {i : HostInstance} {headers : List String} {body : MaterializedBody}
    {list : Nat} {bodyProps : List (String × JsValue)} {st : Walking}
    (hstamp : StampAt brandKey st.heap own b i headers body list bodyProps)
    (hfits : Fits running i headers body) :
    ∃ b' cells st', buildFromDescriptor running ((brandKey, .prim (.int i.fields.1)) ::
        (i.fields.2 ++ ("headers", .ref list) :: bodyProps)) i.fields.1 st = .ok (b', st') ∧
      st'.heap = st.heap ++ cells ∧ st'.seen = st.seen ∧ st'.pending = st.pending ∧
      st.heap.length ≤ b' ∧ b' < st'.heap.length ∧ InstanceAt st'.heap b' list body i := by
  have hfields := fields_of_stamp hkey i list bodyProps
  generalize (brandKey, .prim (.int i.fields.1)) ::
    (i.fields.2 ++ ("headers", Value.ref list) :: bodyProps) = props at hfields
  -- The header object first, then the body, then the instance.
  set st1 : Walking := { st with heap := st.heap ++ [.headers (.ref list)] } with hst1
  have hbody : BodyAt st1.heap own bodyProps body := by
    have hatBody := hstamp.atBody
    cases body with
    | null => exact hatBody
    | bytes data =>
      obtain ⟨c, hprops, hown, hcell⟩ := hatBody
      have hlt := (List.getElem?_eq_some_iff.mp hcell).1
      exact ⟨c, hprops, hown, (List.getElem?_append_left hlt).trans hcell⟩
    | stream id => exact hatBody
  have hheaders : st1.heap[st.heap.length]? = some (.headers (.ref list)) := by
    simp [hst1]
  cases i with
  | headers entries =>
    refine ⟨st.heap.length, [.headers (.ref list)], st1, ?_, rfl, rfl, rfl, le_refl _, ?_, hheaders⟩
    · unfold buildFromDescriptor
      rw [hfields.headers]
      dsimp only
      rw [headerList_ok hstamp.atList hfits.even hfits.short]
      rfl
    · simp [hst1]
  | request url method entries source =>
    obtain ⟨v, cells, st2, hok, hheap, hseen, hpending, hvalue⟩ := hydratedBody_ok hbody
      hfields.body hfields.bodyStream hfits.stream
    obtain ⟨hurl, hmethod⟩ := hfields.request url method entries source rfl
    have hlen : st.heap.length < st2.heap.length := by simp [hheap, hst1]
    refine ⟨st2.heap.length, .headers (.ref list) :: (cells ++ [.request (str url) (str method)
      (.ref st.heap.length) v]), (st2.alloc (.request (str url) (str method)
      (.ref st.heap.length) v)).2, ?_, ?_, hseen, hpending, hlen.le, by simp [Walking.alloc], ?_⟩
    · unfold buildFromDescriptor
      rw [hfields.headers, hurl, hmethod]
      dsimp only
      rw [headerList_ok hstamp.atList hfits.even hfits.short]
      show (hydratedBody running props st1).bind _ = _
      rw [hok]
      rfl
    · simp [Walking.alloc, hheap, hst1]
    · have hext : ∀ (c : Nat) (o : JsObject JsValue), st2.heap[c]? = some o →
          (st2.alloc (.request (str url) (str method) (.ref st.heap.length) v)).2.heap[c]? = some o :=
        fun c o hc => (List.getElem?_append_left (List.getElem?_eq_some_iff.mp hc).1).trans hc
      refine ⟨st.heap.length, v, by simp [Walking.alloc], hext _ _ ?_, hvalue.mono hext⟩
      rw [hheap]
      exact (List.getElem?_append_left (by simp [hst1])).trans hheaders
  | response status statusText entries source =>
    obtain ⟨v, cells, st2, hok, hheap, hseen, hpending, hvalue⟩ := hydratedBody_ok hbody
      hfields.body hfields.bodyStream hfits.stream
    obtain ⟨hstatus, htext⟩ := hfields.response status statusText entries source rfl
    have hlen : st.heap.length < st2.heap.length := by simp [hheap, hst1]
    have hvalueOf : (uint32Value (.prim (.int status.toNat))).getD 200 = status.toNat := by
      simp [uint32Value, Prim.int, JsNumber.toInt32]
    refine ⟨st2.heap.length, .headers (.ref list) :: (cells ++ [.response status.toNat
      (str statusText) (.ref st.heap.length) v]), (st2.alloc (.response status.toNat
      (str statusText) (.ref st.heap.length) v)).2, ?_, ?_, hseen, hpending, hlen.le,
      by simp [Walking.alloc], ?_⟩
    · unfold buildFromDescriptor
      rw [hfields.headers, hstatus, htext, hvalueOf]
      dsimp only
      rw [headerList_ok hstamp.atList hfits.even hfits.short]
      show (hydratedBody running props st1).bind _ = _
      rw [hok]
      rfl
    · simp [Walking.alloc, hheap, hst1]
    · have hext : ∀ (c : Nat) (o : JsObject JsValue), st2.heap[c]? = some o →
          (st2.alloc (.response status.toNat (str statusText) (.ref st.heap.length) v)).2.heap[c]?
            = some o :=
        fun c o hc => (List.getElem?_append_left (List.getElem?_eq_some_iff.mp hc).1).trans hc
      refine ⟨st.heap.length, v, by simp [Walking.alloc], hext _ _ ?_, hvalue.mono hext⟩
      rw [hheap]
      exact (List.getElem?_append_left (by simp [hst1])).trans hheaders

end Building

/-! ### The received graph -/

/-- What is received of an object: class instances and null prototypes are gone. -/
def JsObject.flattened {V : Type} : JsObject V → JsObject V
  | .record _ props => .record true props
  | o => o

/-- The objects of a host graph: instances, and what can be received, without the brand key. -/
def GraphObject (brandKey : String) (o : JsObject JsValue) : Prop :=
  (∃ i, o = .host i) ∨ (o.Receivable ∧ ∀ ordinary props, o = .record ordinary props →
    ∀ prop ∈ props, prop.1 ≠ brandKey)

/-- The addresses that name no object of the graph. -/
def Apart (heap0 : List (JsObject JsValue)) (v0 : JsValue) (name : Nat → Nat) (x : Nat) : Prop :=
  ∀ b, Walk heap0 v0 b → name b ≠ x

/-- A host graph, and under a renaming what the sandbox received of it: the instances are stamped
objects, whose header lists and bytes stand apart from the graph. -/
structure Sent (brandKey : String) (running : Bool)
    (content : HostInstance → List String → MaterializedBody → Prop)
    (heap0 : List (JsObject JsValue)) (v0 : JsValue) (name : Nat → Nat)
    (heap2 : List (JsObject JsValue)) : Prop where
  wf : WfHeap heap0
  inHeap : InHeap heap0 v0
  kinds : ∀ a o, Walk heap0 v0 a → heap0[a]? = some o → GraphObject brandKey o
  inj : ∀ a b, Walk heap0 v0 a → Walk heap0 v0 b → name a = name b → a = b
  object : ∀ a o, Walk heap0 v0 a → heap0[a]? = some o → o.Receivable →
    heap2[name a]? = some (o.flattened.mapValues (Value.map name))
  stamp : ∀ a i, Walk heap0 v0 a → heap0[a]? = some (.host i) →
    ∃ headers body list props,
      StampAt brandKey heap2 (Apart heap0 v0 name) (name a) i headers body list props ∧ content i headers body ∧ Fits running i headers body

section Receiving

variable {brandKey : String} {running : Bool}
  {content : HostInstance → List String → MaterializedBody → Prop}
  {heap0 : List (JsObject JsValue)} {v0 : JsValue} {name : Nat → Nat}
  {heap2 : List (JsObject JsValue)}

theorem not_receivable_host {i : HostInstance} : ¬(JsObject.host i).Receivable := id

theorem walked_of_receivable {o : JsObject JsValue} (h : o.Receivable) : o.walked = o.children := by
  cases o with
  | native _ => rfl
  | array elements named => exact walked_of_plain (o := .array elements named) h
  | record _ _ => rfl
  | map _ => rfl
  | set _ => rfl
  | _ => exact h.elim

theorem flattened_receivable {o : JsObject JsValue} (h : o.Receivable) :
    o.flattened.Receivable ∧ o.flattened.children = o.children ∧ (o.Wf → o.flattened.Wf) := by
  cases o <;> exact ⟨h, rfl, id⟩

/-- The renaming to the stand-ins of a moment of the walk. -/
def stand (name : Nat → Nat) (st : Walking) (a : Nat) : Nat := (st.seen (name a)).getD (name a)

/-- The object was met, or it is a buffer, which stands for itself. -/
def Met (heap0 : List (JsObject JsValue)) (name : Nat → Nat) (st : Walking) (a : Nat) : Prop :=
  (∃ b, st.seen (name a) = some b) ∨ ∃ o, heap0[a]? = some o ∧ o.isBuffer = true

/-- A sandbox instance of an instance, with its content; its header list is no object of the
graph. -/
def Received (content : HostInstance → List String → MaterializedBody → Prop) (own : Nat → Prop)
    (heap : List (JsObject JsValue)) (b : Nat) (i : HostInstance) : Prop :=
  ∃ headers body list, own list ∧ InstanceAt heap b list body i ∧
    heap[list]? = some (.array (headers.map fun s => some (str s)) []) ∧ content i headers body

/-- A moment of the walk; `busy` is the container that is being read. -/
structure WalkInv (content : HostInstance → List String → MaterializedBody → Prop)
    (heap0 : List (JsObject JsValue)) (v0 : JsValue) (name : Nat → Nat)
    (heap2 : List (JsObject JsValue)) (busy : Option Nat) (st : Walking) : Prop where
  len : heap2.length ≤ st.heap.length
  met : ∀ x y, st.seen x = some y → ∃ a o, Walk heap0 v0 a ∧ heap0[a]? = some o ∧ x = name a ∧
    ((∃ i, o = .host i ∧ heap2.length ≤ y ∧ y < st.heap.length ∧
        Received content (Apart heap0 v0 name) st.heap y i) ∨
      (o.Receivable ∧ o.isBuffer = false ∧ y = x))
  inj : ∀ x x' y, st.seen x = some y → st.seen x' = some y → x = x'
  pending : ∀ x ∈ st.pending, st.seen x = some x ∧ busy ≠ some x
  nodup : st.pending.Nodup
  reading : ∀ x, busy = some x → st.seen x = some x
  todo : ∀ a o, Walk heap0 v0 a → heap0[a]? = some o → o.Receivable →
    st.seen (name a) = none ∨ name a ∈ st.pending ∨ busy = some (name a) →
    st.heap[name a]? = heap2[name a]?
  done : ∀ a o, Walk heap0 v0 a → heap0[a]? = some o → o.Receivable →
    st.seen (name a) = some (name a) → name a ∉ st.pending → busy ≠ some (name a) →
    st.heap[name a]? = some (o.flattened.mapValues (Value.map (stand name st))) ∧
      ∀ c, .ref c ∈ o.children → Met heap0 name st c
  rest : ∀ x, x < heap2.length → (∀ a o, Walk heap0 v0 a → heap0[a]? = some o → o.Receivable →
    name a ≠ x) → st.heap[x]? = heap2[x]?

/-- What a visit keeps: the heap grows behind its end, stand-ins stay, and what is new is pending. -/
structure Onward (n : Nat) (st st' : Walking) : Prop where
  heap : ∃ cells, st'.heap = st.heap ++ cells
  seen : ∀ x y, st.seen x = some y → st'.seen x = some y
  pending : ∃ new, st'.pending = new ++ st.pending
  work : unmet n (fun x => (st'.seen x).isSome) + st'.pending.length ≤
    unmet n (fun x => (st.seen x).isSome) + st.pending.length

theorem Onward.refl (n : Nat) (st : Walking) : Onward n st st :=
  ⟨⟨[], (List.append_nil _).symm⟩, fun _ _ h => h, ⟨[], rfl⟩, Nat.le_refl _⟩

theorem Onward.trans {n : Nat} {st st' st'' : Walking} (h : Onward n st st') (h' : Onward n st' st'') :
    Onward n st st'' where
  heap := by
    obtain ⟨cells, hcells⟩ := h.heap
    obtain ⟨cells', hcells'⟩ := h'.heap
    exact ⟨cells ++ cells', by rw [hcells', hcells, List.append_assoc]⟩
  seen x y hs := h'.seen x y (h.seen x y hs)
  pending := by
    obtain ⟨new, hnew⟩ := h.pending
    obtain ⟨new', hnew'⟩ := h'.pending
    exact ⟨new' ++ new, by rw [hnew', hnew, List.append_assoc]⟩
  work := h'.work.trans h.work

theorem Onward.get {n : Nat} {st st' : Walking} (h : Onward n st st') {c : Nat}
    {o : JsObject JsValue} (hc : st.heap[c]? = some o) : st'.heap[c]? = some o := by
  obtain ⟨cells, hcells⟩ := h.heap
  rw [hcells, List.getElem?_append_left (List.getElem?_eq_some_iff.mp hc).1, hc]

theorem Met.mono {n : Nat} {st st' : Walking} {a : Nat} (h : Met heap0 name st a)
    (hon : Onward n st st') : Met heap0 name st' a := by
  rcases h with ⟨b, hb⟩ | hbuffer
  · exact .inl ⟨b, hon.seen _ b hb⟩
  · exact .inr hbuffer

theorem isBuffer_flattened (o : JsObject JsValue) (f : JsValue → JsValue) :
    (o.flattened.mapValues f).isBuffer = o.isBuffer := by
  cases o with
  | native leaf => rfl
  | refused _ view => cases view <;> rfl
  | _ => rfl

/-- The values of an object that is walked through are walked through. -/
theorem walk_child {a c : Nat} {o : JsObject JsValue} (ha : Walk heap0 v0 a) (ho : heap0[a]? = some o)
    (hreceivable : o.Receivable) (hc : .ref c ∈ o.children) : Walk heap0 v0 c := by
  refine ha.step ?_
  rw [walkEdges_some ho, walked_of_receivable hreceivable]
  exact hc

namespace Sent

variable (hsent : Sent brandKey running content heap0 v0 name heap2)

include hsent

theorem get {a : Nat} (ha : Walk heap0 v0 a) : ∃ o, heap0[a]? = some o := by
  have hlt : a < heap0.length := by
    cases ha with
    | root heq => exact hsent.inHeap a heq
    | @step b _ hb hmem =>
      cases ho : heap0[b]? with
      | none => rw [walkEdges, ho] at hmem; exact absurd hmem List.not_mem_nil
      | some o =>
        rw [walkEdges_some ho] at hmem
        exact hsent.wf.closed b o ho a (ref_mem_children hmem)
  exact ⟨heap0[a], List.getElem?_eq_getElem hlt⟩

/-- Everything is named in the received heap. -/
theorem lt {a : Nat} (ha : Walk heap0 v0 a) : name a < heap2.length := by
  obtain ⟨o, ho⟩ := hsent.get ha
  rcases hsent.kinds a o ha ho with ⟨i, rfl⟩ | ⟨hreceivable, -⟩
  · obtain ⟨_, _, _, _, hstamp, -⟩ := hsent.stamp a i ha ho
    exact (List.getElem?_eq_some_iff.mp hstamp.atCell).1
  · exact (List.getElem?_eq_some_iff.mp (hsent.object a o ha ho hreceivable)).1

/-- An address that was met stands for its own object. -/
theorem met_of_seen {busy : Option Nat} {st : Walking}
    (hinv : WalkInv content heap0 v0 name heap2 busy st) {a b : Nat} {o : JsObject JsValue}
    (ha : Walk heap0 v0 a) (ho : heap0[a]? = some o) (hb : st.seen (name a) = some b) :
    (∃ i, o = .host i ∧ heap2.length ≤ b ∧ b < st.heap.length ∧
        Received content (Apart heap0 v0 name) st.heap b i) ∨
      (o.Receivable ∧ o.isBuffer = false ∧ b = name a) := by
  obtain ⟨a', o', ha', ho', hname, hcases⟩ := hinv.met _ b hb
  have heq := hsent.inj a a' ha ha' hname
  rw [← heq, ho] at ho'
  cases ho'
  exact hcases

theorem not_buffer {busy : Option Nat} {st : Walking}
    (hinv : WalkInv content heap0 v0 name heap2 busy st) {a b : Nat} {o : JsObject JsValue}
    (ha : Walk heap0 v0 a) (ho : heap0[a]? = some o) (hb : st.seen (name a) = some b) :
    o.isBuffer = false := by
  rcases hsent.met_of_seen hinv ha ho hb with ⟨i, rfl, -⟩ | ⟨-, hfalse, -⟩
  · rfl
  · exact hfalse

end Sent

/-- What was met keeps its stand-in. -/
theorem stand_stable {n : Nat} {st st' : Walking} (hon : Onward n st st')
    (hbuffer : ∀ c b o, Walk heap0 v0 c → heap0[c]? = some o → st'.seen (name c) = some b →
      o.isBuffer = false) {c : Nat} (hc : Walk heap0 v0 c) (hmet : Met heap0 name st c) :
    stand name st' c = stand name st c := by
  unfold stand
  cases hseen : st.seen (name c) with
  | some b => rw [hon.seen _ b hseen]
  | none =>
    rcases hmet with ⟨b, hb⟩ | ⟨o, ho, htrue⟩
    · rw [hseen] at hb; cases hb
    · cases hseen' : st'.seen (name c) with
      | none => rfl
      | some b =>
        rw [hbuffer c b o hc ho hseen'] at htrue
        cases htrue

theorem Received.mono {own : Nat → Prop} {n : Nat} {st st' : Walking} {b : Nat} {i : HostInstance}
    (h : Received content own st.heap b i) (hon : Onward n st st') :
    Received content own st'.heap b i := by
  obtain ⟨headers, body, list, hown, hinstance, hlist, hcontent⟩ := h
  refine ⟨headers, body, list, hown, ?_, hon.get hlist, hcontent⟩
  cases i with
  | headers entries => exact hon.get hinstance
  | request url method entries source =>
    obtain ⟨h, v, hb, hh, hv⟩ := hinstance
    exact ⟨h, v, hon.get hb, hon.get hh, hv.mono fun c o hc => hon.get hc⟩
  | response status statusText entries source =>
    obtain ⟨h, v, hb, hh, hv⟩ := hinstance
    exact ⟨h, v, hon.get hb, hon.get hh, hv.mono fun c o hc => hon.get hc⟩

/-! ### One visit -/

/-- What holds after an address took a stand-in: the rest is as it was. -/
theorem WalkInv.grow (hsent : Sent brandKey running content heap0 v0 name heap2)
    {busy : Option Nat} {st st' : Walking} (hinv : WalkInv content heap0 v0 name heap2 busy st)
    (hon : Onward heap2.length st st') {x y : Nat} (hnone : st.seen x = none)
    (hseen : st'.seen = fun c => if c = x then some y else st.seen c)
    (hpending : ∀ z, z ∈ st'.pending ↔ z ∈ st.pending ∨ (z = x ∧ y = x))
    (hnodup : st'.pending.Nodup)
    (hnew : ∃ a o, Walk heap0 v0 a ∧ heap0[a]? = some o ∧ x = name a ∧
      ((∃ i, o = .host i ∧ st.heap.length ≤ y ∧ y < st'.heap.length ∧
          Received content (Apart heap0 v0 name) st'.heap y i) ∨
        (o.Receivable ∧ o.isBuffer = false ∧ y = x))) :
    WalkInv content heap0 v0 name heap2 busy st' := by
  have hheap : ∀ z, z < st.heap.length → st'.heap[z]? = st.heap[z]? := by
    intro z hz
    obtain ⟨cells, hcells⟩ := hon.heap
    rw [hcells, List.getElem?_append_left hz]
  have hlen : st.heap.length ≤ st'.heap.length := by
    obtain ⟨cells, hcells⟩ := hon.heap
    simp [hcells]
  have hat : ∀ {a}, Walk heap0 v0 a → st'.heap[name a]? = st.heap[name a]? := fun ha =>
    hheap _ (Nat.lt_of_lt_of_le (hsent.lt ha) hinv.len)
  have hold : ∀ z w, st'.seen z = some w → (z = x ∧ w = y) ∨ st.seen z = some w := by
    intro z w hz
    rw [hseen] at hz
    dsimp only at hz
    split at hz
    · next heq =>
      cases hz
      exact .inl ⟨heq, rfl⟩
    · exact .inr hz
  have hne : ∀ z w, st.seen z = some w → z ≠ x := fun z w hz heq => by
    rw [heq, hnone] at hz; cases hz
  obtain ⟨c, o, hc, ho, hxc, hcases⟩ := hnew
  -- A stand-in taken before is not the new one.
  have hfresh : ∀ z w, st.seen z = some w → w ≠ y := by
    rintro z w hz rfl
    obtain ⟨a, o', ha, ho', rfl, h'⟩ := hinv.met z w hz
    have hxlt := hxc ▸ hsent.lt hc
    rcases h' with ⟨i', -, hge', hlt', -⟩ | ⟨-, -, heq'⟩
    · rcases hcases with ⟨i, -, hge, -⟩ | ⟨-, -, heq⟩
      · omega
      · omega
    · rcases hcases with ⟨i, -, hge, -⟩ | ⟨-, -, heq⟩
      · have := hsent.lt ha
        have := hinv.len
        omega
      · exact hne _ _ hz (heq'.symm.trans heq)
  have hbuffer : ∀ d b o, Walk heap0 v0 d → heap0[d]? = some o → st'.seen (name d) = some b →
      o.isBuffer = false := by
    intro d b o' hd ho' hb
    rcases hold _ b hb with ⟨hdx, -⟩ | hb
    · rw [hsent.inj d c hd hc (hdx.trans hxc), ho] at ho'
      cases ho'
      rcases hcases with ⟨i, rfl, -⟩ | ⟨-, hfalse, -⟩
      · rfl
      · exact hfalse
    · exact hsent.not_buffer hinv hd ho' hb
  refine ⟨hinv.len.trans hlen, fun z w hz => ?_, fun z z' w hz hz' => ?_, fun z hz => ?_, hnodup,
    fun z hz => hon.seen z z (hinv.reading z hz), fun a o' ha ho' hreceivable hcase => ?_,
    fun a o' ha ho' hreceivable hself hnot hbusy => ?_, fun z hz hother => ?_⟩
  · rcases hold z w hz with ⟨rfl, rfl⟩ | hz
    · refine ⟨c, o, hc, ho, hxc, ?_⟩
      rcases hcases with ⟨i, hi, hge, hlt, hreceived⟩ | hself
      · exact .inl ⟨i, hi, hinv.len.trans hge, hlt, hreceived⟩
      · exact .inr hself
    · obtain ⟨a, o', ha, ho', hza, h'⟩ := hinv.met z w hz
      refine ⟨a, o', ha, ho', hza, ?_⟩
      rcases h' with ⟨i, hi, hge, hlt, hreceived⟩ | hself
      · exact .inl ⟨i, hi, hge, Nat.lt_of_lt_of_le hlt hlen, hreceived.mono hon⟩
      · exact .inr hself
  · rcases hold z w hz with ⟨rfl, rfl⟩ | hz
    · rcases hold z' w hz' with ⟨rfl, -⟩ | hz'
      · rfl
      · exact absurd rfl (hfresh z' w hz')
    · rcases hold z' w hz' with ⟨rfl, rfl⟩ | hz'
      · exact absurd rfl (hfresh z w hz)
      · exact hinv.inj z z' w hz hz'
  · rcases (hpending z).mp hz with hz | ⟨rfl, rfl⟩
    · exact ⟨hon.seen z z (hinv.pending z hz).1, (hinv.pending z hz).2⟩
    · refine ⟨by rw [hseen]; exact if_pos rfl, fun hbusy => ?_⟩
      exact hne _ _ (hinv.reading _ hbusy) rfl
  · rw [hat ha]
    refine hinv.todo a o' ha ho' hreceivable ?_
    rcases hcase with hnone' | hmem | hbusy
    · left
      cases hz : st.seen (name a) with
      | none => rfl
      | some w => rw [hon.seen _ w hz] at hnone'; cases hnone'
    · rcases (hpending _).mp hmem with hmem | ⟨hax, -⟩
      · exact .inr (.inl hmem)
      · exact .inl (hax ▸ hnone)
    · exact .inr (.inr hbusy)
  · rcases hold _ _ hself with ⟨hax, hay⟩ | hself
    · exact absurd ((hpending _).mpr (.inr ⟨hax, hay.symm.trans hax⟩)) hnot
    · obtain ⟨hcell, hmet⟩ := hinv.done a o' ha ho' hreceivable hself
        (fun hmem => hnot ((hpending _).mpr (.inl hmem))) hbusy
      refine ⟨?_, fun d hd => (hmet d hd).mono hon⟩
      rw [hat ha, hcell]
      refine congrArg some (JsObject.mapValues_congr fun v hv => Value.map_congr fun d hd => ?_)
      rw [(flattened_receivable hreceivable).2.1, hd] at hv
      exact (stand_stable hon hbuffer (walk_child ha ho' hreceivable hv) (hmet d hv)).symm
  · rw [hheap z (Nat.lt_of_lt_of_le hz hinv.len), hinv.rest z hz hother]

/-- An object without the brand key is no stamped one. -/
theorem brandOf_none {o : JsObject JsValue} (h : o.Receivable)
    (hnames : ∀ ordinary props, o = .record ordinary props → ∀ prop ∈ props, prop.1 ≠ brandKey)
    (f : JsValue → JsValue) : brandOf brandKey (o.flattened.mapValues f) = none := by
  cases o with
  | record ordinary props =>
    have hlookup : (mapProps f props).lookup brandKey = none := by
      rw [List.lookup_eq_none_iff]
      intro prop hprop
      obtain ⟨old, hold, rfl⟩ := List.mem_map.mp hprop
      exact bne_iff_ne.mpr (hnames ordinary props rfl old hold).symm
    show uint32Field (mapProps f props) brandKey = none
    rw [uint32Field, hlookup]
  | array _ _ => rfl
  | map _ => rfl
  | set _ => rfl
  | native _ => rfl
  | _ => exact h.elim

/-- **What one visit does**: the value has its stand-in afterwards, and this is what is written. -/
theorem visit_spec (hkey : ∀ name ∈ descriptorNames, name ≠ brandKey)
    (hsent : Sent brandKey running content heap0 v0 name heap2) {busy : Option Nat} {st : Walking}
    (hinv : WalkInv content heap0 v0 name heap2 busy st) {u : JsValue}
    (hu : ∀ c, u = .ref c → Walk heap0 v0 c) :
    ∃ s st', visit brandKey running (u.map name) st = .ok (s, st') ∧
      WalkInv content heap0 v0 name heap2 busy st' ∧ Onward heap2.length st st' ∧
      s.getD (u.map name) = u.map (stand name st') ∧ (∀ c, u = .ref c → Met heap0 name st' c) ∧
      (s.isSome → st'.pending = st.pending) := by
  cases u with
  | prim p => exact ⟨none, st, rfl, hinv, .refl _ st, rfl, fun c hc => by (cases hc), fun h => by cases h⟩
  | ref c =>
    have hc := hu c rfl
    obtain ⟨o, ho⟩ := hsent.get hc
    have hlt := hsent.lt hc
    rw [Value.map_ref, visit]
    rcases hsent.kinds c o hc ho with ⟨i, rfl⟩ | ⟨hreceivable, hnames⟩
    · -- An instance: its stamped object is replaced once.
      obtain ⟨headers, body, list, props, hstamp, hcontent, hfits⟩ := hsent.stamp c i hc ho
      have hother : ∀ a o', Walk heap0 v0 a → heap0[a]? = some o' → o'.Receivable →
          name a ≠ name c := by
        intro a o' ha ho' hreceivable heq
        rw [hsent.inj a c ha hc heq, ho] at ho'
        cases ho'
        exact hreceivable
      have hsame : ∀ d, (∀ b, Walk heap0 v0 b → name b ≠ d) → d < heap2.length →
          st.heap[d]? = heap2[d]? := fun d hd hdlt => hinv.rest d hdlt fun a _ ha _ _ => hd a ha
      have hstamp' : StampAt brandKey st.heap (Apart heap0 v0 name) (name c) i headers body list props := by
        refine ⟨(hinv.rest _ hlt hother).trans hstamp.atCell, ?_, hstamp.ownList, ?_⟩
        · exact (hsame list hstamp.ownList (List.getElem?_eq_some_iff.mp hstamp.atList).1).trans
            hstamp.atList
        · cases body with
          | null => exact hstamp.atBody
          | bytes data =>
            obtain ⟨d, hprops, hown, hcell⟩ := hstamp.atBody
            exact ⟨d, hprops, hown,
              (hsame d hown (List.getElem?_eq_some_iff.mp hcell).1).trans hcell⟩
          | stream id => exact hstamp.atBody
      rw [hstamp'.atCell]
      dsimp only [JsObject.isBuffer]
      cases hseen : st.seen (name c) with
      | some b =>
        have hb : b ≠ name c := by
          rcases hsent.met_of_seen hinv hc ho hseen with ⟨-, -, hge, -⟩ | ⟨hfalse, -⟩
          · omega
          · exact hfalse.elim
        refine ⟨some (.ref b), st, ?_, hinv, .refl _ st, ?_, fun d hd => ?_, fun _ => rfl⟩
        · simp [hb]
        · rw [Value.map_ref, stand, hseen]
          rfl
        · cases hd
          exact .inl ⟨b, hseen⟩
      | none =>
        obtain ⟨b, cells, st1, hbuild, hheap, hseen1, hpending, hge, hltb, hinstance⟩ :=
          buildFromDescriptor_ok hkey hstamp' hfits
        have htag : brandOf brandKey (.record true ((brandKey, .prim (.int i.fields.1)) ::
            (i.fields.2 ++ ("headers", .ref list) :: props))) = some i.fields.1 :=
          (fields_of_stamp hkey i list props).tag
        have hon : Onward heap2.length st (st1.mark (name c) b) := by
          refine ⟨⟨cells, hheap⟩, fun x y hx => ?_, ⟨[], hpending⟩, ?_⟩
          · have hne : x ≠ name c := fun heq => by rw [heq, hseen] at hx; cases hx
            show (if x = name c then some b else st1.seen x) = some y
            rw [if_neg hne, hseen1, hx]
          · have hless : unmet heap2.length (fun x => ((st1.mark (name c) b).seen x).isSome) <
                unmet heap2.length fun x => (st.seen x).isSome := by
              rw [show (st1.mark (name c) b).seen = fun x => if x = name c then some b else st.seen x
                from by rw [← hseen1]; rfl]
              exact unmet_mark hlt hseen
            have hlen : (st1.mark (name c) b).pending.length = st.pending.length :=
              congrArg List.length hpending
            omega
        have hreceived : Received content (Apart heap0 v0 name) (st1.mark (name c) b).heap b i :=
          ⟨headers, body, list, hstamp.ownList, hinstance, hon.get hstamp'.atList, hcontent⟩
        refine ⟨some (.ref b), st1.mark (name c) b, ?_, ?_, hon, ?_, fun d hd => ?_,
          fun _ => hpending⟩
        · rw [htag]
          dsimp only
          rw [hbuild]
          rfl
        · refine hinv.grow hsent hon hseen (by rw [← hseen1]; rfl) (fun z => ?_) ?_
            ⟨c, .host i, hc, ho, rfl, .inl ⟨i, rfl, hge, hltb, hreceived⟩⟩
          · have hne : b ≠ name c := by
              have := hinv.len
              omega
            rw [show (st1.mark (name c) b).pending = st.pending from hpending]
            exact ⟨.inl, fun h => h.elim id fun h => absurd h.2 hne⟩
          · rw [show (st1.mark (name c) b).pending = st.pending from hpending]
            exact hinv.nodup
        · rw [Value.map_ref, stand, show (st1.mark (name c) b).seen (name c) = some b from if_pos rfl]
          rfl
        · cases hd
          exact .inl ⟨b, if_pos rfl⟩
    · -- Anything else stands for itself; a container is queued.
      have hcell : ∃ f, st.heap[name c]? = some (o.flattened.mapValues f) := by
        cases hseen : st.seen (name c) with
        | none => exact ⟨_, (hinv.todo c o hc ho hreceivable (.inl hseen)).trans
            (hsent.object c o hc ho hreceivable)⟩
        | some b =>
          have hb : b = name c := by
            rcases hsent.met_of_seen hinv hc ho hseen with ⟨i, rfl, -⟩ | ⟨-, -, heq⟩
            · exact hreceivable.elim
            · exact heq
          by_cases hpend : name c ∈ st.pending ∨ busy = some (name c)
          · exact ⟨_, (hinv.todo c o hc ho hreceivable (.inr hpend)).trans
              (hsent.object c o hc ho hreceivable)⟩
          · rw [not_or] at hpend
            exact ⟨_, (hinv.done c o hc ho hreceivable (hb ▸ hseen) hpend.1 hpend.2).1⟩
      obtain ⟨f, hcell⟩ := hcell
      rw [hcell]
      dsimp only
      rw [isBuffer_flattened]
      cases hbuffer : o.isBuffer with
      | true =>
        have hnone : st.seen (name c) = none := by
          cases hseen : st.seen (name c) with
          | none => rfl
          | some b =>
            have hfalse := hsent.not_buffer hinv hc ho hseen
            rw [hbuffer] at hfalse
            cases hfalse
        refine ⟨none, st, rfl, hinv, .refl _ st, ?_, fun d hd => ?_, fun h => by cases h⟩
        · rw [Value.map_ref, stand, hnone]
          rfl
        · cases hd
          exact .inr ⟨o, ho, hbuffer⟩
      | false =>
        cases hseen : st.seen (name c) with
        | some b =>
          have hb : b = name c := by
            rcases hsent.met_of_seen hinv hc ho hseen with ⟨i, rfl, -⟩ | ⟨-, -, heq⟩
            · exact hreceivable.elim
            · exact heq
          refine ⟨none, st, ?_, hinv, .refl _ st, ?_, fun d hd => ?_, fun h => by cases h⟩
          · simp [hb]
          · rw [Value.map_ref, stand, hseen, hb]
            rfl
          · cases hd
            exact .inl ⟨b, hseen⟩
        | none =>
          have hbrand : brandOf brandKey (o.flattened.mapValues f) = none :=
            brandOf_none hreceivable hnames f
          set st' : Walking := { st.mark (name c) (name c) with pending := name c :: st.pending } with hst'
          have hon : Onward heap2.length st st' := by
            refine ⟨⟨[], (List.append_nil _).symm⟩, fun x y hx => ?_, ⟨[name c], rfl⟩, ?_⟩
            · have hne : x ≠ name c := fun heq => by rw [heq, hseen] at hx; cases hx
              show (if x = name c then some (name c) else st.seen x) = some y
              rw [if_neg hne, hx]
            · have hless : unmet heap2.length (fun x => (st'.seen x).isSome) <
                  unmet heap2.length fun x => (st.seen x).isSome := unmet_mark hlt hseen
              have hlen : st'.pending.length = st.pending.length + 1 := rfl
              omega
          have hnot : name c ∉ st.pending := fun hmem => by
            rw [(hinv.pending _ hmem).1] at hseen
            cases hseen
          refine ⟨none, st', ?_, ?_, hon, ?_, fun d hd => ?_, fun h => by cases h⟩
          · rw [hbrand]
            cases o.flattened.mapValues f <;> rfl
          · refine hinv.grow hsent hon hseen rfl (fun z => ?_) (List.nodup_cons.mpr ⟨hnot, hinv.nodup⟩)
              ⟨c, o, hc, ho, rfl, .inr ⟨hreceivable, hbuffer, rfl⟩⟩
            show z ∈ name c :: st.pending ↔ _
            rw [List.mem_cons]
            exact ⟨fun h => h.elim (fun heq => .inr ⟨heq, rfl⟩) .inl,
              fun h => h.elim .inr fun h => .inl h.1⟩
          · show Value.ref (name c) = Value.ref (stand name st' c)
            rw [stand, show st'.seen (name c) = some (name c) from if_pos rfl]
            rfl
          · cases hd
            exact .inl ⟨name c, if_pos rfl⟩

end Receiving

end Iso4
