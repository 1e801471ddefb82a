/-
Values on their way from the host into the sandbox: the objects on both sides.

An object is a shape with values in it.  The host holds plain objects, arrays, Maps, Sets, what V8
carries natively, boxed primitives, objects its serializer refuses, and the host types.  The
serializer writes each object in its own way (`written`); the pre-pass of the host types reads
it in another (`walked`) and builds a copy from what it read (`rebuilt`).

* `written`, `structuredClone` — the serializer;
* `walked`, `rebuilt` — the reading and the copy of the pre-pass;
* `written_rebuilt` — on objects that are `Plain` the serializer sees no difference.
-/
import Iso4.Lib.Graph
import Iso4.Lib.JsNumber

namespace Iso4

open Graph Js

/-! ### Primitive values -/

/-- What is no object; a function or a symbol has no data. -/
inductive Prim where
  | undefined
  | null
  | bool (b : Bool)
  | number (x : JsNumber)
  | bigint (n : Int)
  | string (s : String)
  | behaviour
  deriving DecidableEq

abbrev JsValue := Graph.Value Prim

/-- An integer. -/
def Prim.int (n : Nat) : Prim := .number (.finite false n 1)

/-- `value.is_uint32()` and the value. -/
def Prim.uint32 : Prim → Option Nat
  | .number (.finite false num den) =>
    if num % den = 0 ∧ num / den < 2 ^ 32 then some (num / den) else none
  | _ => none

/-- `SameValueZero` of two numbers. -/
def sameNumber : JsNumber → JsNumber → Bool
  | .nan, .nan => true
  | .infinite s, .infinite t => s == t
  | .finite s num den, .finite t num' den' =>
    num * den' == num' * den && (s == t || num == 0)
  | _, _ => false

/-- `SameValueZero`, which compares the keys of Maps and the items of Sets. -/
def sameKey : JsValue → JsValue → Bool
  | .prim (.number x), .prim (.number y) => sameNumber x y
  | v, w => v == w

/-! ### Host types -/

/-- The body of a `Request` or `Response`: whether it was read, and the chunks its stream yields,
with the error it fails by. -/
structure HostBody where
  bodyUsed : Bool
  stream : Option (List (List UInt8) × Option String)
  deriving DecidableEq

/-- The entries of `Headers` in the order of `forEach`. -/
abbrev HostHeaders := List (String × String)

/-- An instance of a host type. -/
inductive HostInstance where
  | headers (entries : HostHeaders)
  | request (url method : String) (entries : HostHeaders) (body : HostBody)
  | response (status : UInt16) (statusText : String) (entries : HostHeaders) (body : HostBody)
  deriving DecidableEq

/-! ### Objects -/

/-- The kind of a binary object; a view other than `Uint8Array` keeps V8's subtag. -/
inductive BufferKind where
  | arrayBuffer
  | uint8Array
  | view (subtag : Nat)
  deriving DecidableEq

/-- What V8 carries natively and without references. -/
inductive Native where
  | buffer (kind : BufferKind) (bytes : List UInt8)
  | date (time : JsNumber)
  | regexp (source flags : String)
  deriving DecidableEq

/-- How an object that the serializer refuses is read by the pre-pass: a promise or a proxy by its
entries, a proxy of an array by its elements; a proxy of a native object is kept, and the
iteration of a proxy of a Map or Set throws. -/
inductive View (V : Type) where
  | record (props : List (String × V))
  | elements (items : List V)
  | kept
  | throws
  deriving DecidableEq

/-- An object; `V` are the values it holds. -/
inductive JsObject (V : Type) where
  /-- A plain object or a class instance, with its own enumerable properties. -/
  | record (ordinary : Bool) (props : List (String × V))
  /-- An array: a missing element is a hole; `named` are its other properties. -/
  | array (elements : List (Option V)) (named : List (String × V))
  | map (entries : List (V × V))
  | set (items : List V)
  | native (leaf : Native)
  | error (name message : String) (cause : Option V)
  /-- A `Number`, `String`, `Boolean` or `BigInt` object, with its own enumerable properties. -/
  | boxed (value : Prim) (own : List (String × V))
  | refused (proxy : Bool) (view : View V)
  | host (instance_ : HostInstance)
  /-- The sandbox's `Headers`, with its flat list. -/
  | headers (list : V)
  | request (url method headers body : V)
  | response (status : Nat) (statusText headers body : V)
  | bodyStream (id : Nat)
  deriving DecidableEq

abbrev JsHeap := Graph.Heap JsObject Prim

section Values

variable {V W X : Type}

def mapProps (f : V → W) (props : List (String × V)) : List (String × W) :=
  props.map fun prop => (prop.1, f prop.2)

def JsObject.mapValues (f : V → W) : JsObject V → JsObject W
  | .record ordinary props => .record ordinary (mapProps f props)
  | .array elements named => .array (elements.map (Option.map f)) (mapProps f named)
  | .map entries => .map (entries.map fun entry => (f entry.1, f entry.2))
  | .set items => .set (items.map f)
  | .native leaf => .native leaf
  | .error name message cause => .error name message (cause.map f)
  | .boxed value own => .boxed value (mapProps f own)
  | .refused proxy (.record props) => .refused proxy (.record (mapProps f props))
  | .refused proxy (.elements items) => .refused proxy (.elements (items.map f))
  | .refused proxy .kept => .refused proxy .kept
  | .refused proxy .throws => .refused proxy .throws
  | .host i => .host i
  | .headers list => .headers (f list)
  | .request url method hs body => .request (f url) (f method) (f hs) (f body)
  | .response status text hs body => .response status (f text) (f hs) (f body)
  | .bodyStream id => .bodyStream id

/-- The values of an object, in order. -/
def JsObject.children : JsObject V → List V
  | .record _ props => props.map Prod.snd
  | .array elements named => elements.filterMap id ++ named.map Prod.snd
  | .map entries => entries.flatMap fun entry => [entry.1, entry.2]
  | .set items => items
  | .error _ _ cause => cause.toList
  | .boxed _ own => own.map Prod.snd
  | .refused _ (.record props) => props.map Prod.snd
  | .refused _ (.elements items) => items
  | .headers list => [list]
  | .request url method hs body => [url, method, hs, body]
  | .response _ text hs body => [text, hs, body]
  | _ => []

theorem mapProps_congr {f g : V → W} {props : List (String × V)}
    (h : ∀ v ∈ props.map Prod.snd, f v = g v) : mapProps f props = mapProps g props := by
  refine List.map_congr_left fun prop hprop => ?_
  rw [h prop.2 (List.mem_map_of_mem hprop)]

theorem map_snd_mapProps (f : V → W) (props : List (String × V)) :
    (mapProps f props).map Prod.snd = (props.map Prod.snd).map f := by
  simp [mapProps, Function.comp_def]

theorem mapProps_mapProps (f : V → W) (g : W → X) (props : List (String × V)) :
    mapProps g (mapProps f props) = mapProps (g ∘ f) props := by
  simp [mapProps, Function.comp_def]

theorem mapProps_id (props : List (String × V)) : mapProps id props = props := by
  simp [mapProps]

theorem JsObject.children_mapValues (f : V → W) (o : JsObject V) :
    (o.mapValues f).children = o.children.map f := by
  cases o with
  | record _ props => exact map_snd_mapProps f props
  | array elements named =>
    simp only [mapValues, children, List.map_append, map_snd_mapProps, List.filterMap_map,
      List.map_filterMap]
    rfl
  | map entries => simp [mapValues, children, List.flatMap_map, List.map_flatMap]
  | error _ _ cause => cases cause <;> rfl
  | boxed _ own => exact map_snd_mapProps f own
  | refused _ view =>
    cases view with
    | record props => exact map_snd_mapProps f props
    | _ => rfl
  | _ => rfl

theorem JsObject.mapValues_congr {f g : V → W} {o : JsObject V}
    (h : ∀ v ∈ o.children, f v = g v) : o.mapValues f = o.mapValues g := by
  cases o with
  | record _ props => exact congrArg _ (mapProps_congr h)
  | array elements named =>
    have helements : elements.map (Option.map f) = elements.map (Option.map g) := by
      refine List.map_congr_left fun element helement => ?_
      cases element with
      | none => rfl
      | some v =>
        refine congrArg some (h v (List.mem_append_left _ ?_))
        exact List.mem_filterMap.mpr ⟨some v, helement, rfl⟩
    simp only [mapValues, helements]
    rw [mapProps_congr fun v hv => h v (List.mem_append_right _ hv)]
  | map entries =>
    refine congrArg _ (List.map_congr_left fun entry hentry => ?_)
    have hpair : ∀ v ∈ [entry.1, entry.2], f v = g v := fun v hv =>
      h v (List.mem_flatMap.mpr ⟨entry, hentry, hv⟩)
    rw [hpair entry.1 (by simp), hpair entry.2 (by simp)]
  | set items => exact congrArg _ (List.map_congr_left h)
  | error _ _ cause =>
    cases cause with
    | none => rfl
    | some v => exact congrArg (JsObject.error _ _ ∘ some) (h v (by simp [children]))
  | boxed _ own => exact congrArg _ (mapProps_congr h)
  | refused _ view =>
    cases view with
    | record props => exact congrArg (JsObject.refused _ ∘ View.record) (mapProps_congr h)
    | elements items => exact congrArg (JsObject.refused _ ∘ View.elements) (List.map_congr_left h)
    | _ => rfl
  | headers list => exact congrArg _ (h list (by simp [children]))
  | request url method hs body =>
    simp only [mapValues, h url (by simp [children]), h method (by simp [children]),
      h hs (by simp [children]), h body (by simp [children])]
  | response _ text hs body =>
    simp only [mapValues, h text (by simp [children]), h hs (by simp [children]),
      h body (by simp [children])]
  | _ => rfl

theorem JsObject.mapValues_mapValues (f : V → W) (g : W → X) (o : JsObject V) :
    (o.mapValues f).mapValues g = o.mapValues (g ∘ f) := by
  cases o with
  | record _ props => exact congrArg _ (mapProps_mapProps f g props)
  | array elements named =>
    simp [mapValues, mapProps_mapProps, Function.comp_def]
  | refused _ view =>
    cases view <;> simp [mapValues, mapProps_mapProps]
  | _ => simp [mapValues, mapProps_mapProps]

theorem JsObject.mapValues_id (o : JsObject V) : o.mapValues id = o := by
  cases o with
  | refused _ view => cases view <;> simp [mapValues, mapProps_id]
  | _ => simp [mapValues, mapProps_id]

/-- A renaming that leaves the values of an object leaves the object. -/
theorem JsObject.mapValues_eq_self {o : JsObject JsValue} {g : Nat → Nat}
    (h : ∀ c, .ref c ∈ o.children → g c = c) : o.mapValues (Value.map g) = o := by
  refine (JsObject.mapValues_congr fun v hv => ?_).trans o.mapValues_id
  exact Value.map_eq_self fun c hc => h c (hc ▸ hv)

end Values

instance : Shape JsObject where
  map := JsObject.mapValues
  children := JsObject.children
  children_map := JsObject.children_mapValues
  map_congr := JsObject.mapValues_congr
  map_map := JsObject.mapValues_mapValues
  map_id := JsObject.mapValues_id

/-! ### The serializer -/

/-- What the serializer writes of an object: class instances flatten, a boxed primitive is its
value, a host type it does not know flattens to nothing; the rest it refuses. -/
def JsObject.written {V : Type} : JsObject V → Option (JsObject V)
  | .record _ props => some (.record true props)
  | .array elements named => some (.array elements named)
  | .map entries => some (.map entries)
  | .set items => some (.set items)
  | .native leaf => some (.native leaf)
  | .error name message cause => some (.error name message cause)
  | .boxed value _ => some (.boxed value [])
  | .host _ => some (.record true [])
  | _ => none

def writtenHeap (heap : JsHeap) : JsHeap := fun a => (heap a).bind JsObject.written

/-- The serializer accepts a value: nothing in its graph is refused. -/
structure Accepted (heap : JsHeap) (v : JsValue) : Prop where
  start : v ≠ .prim .behaviour
  node : ∀ a, Reach (edgesOf (writtenHeap heap)) v a →
    ∃ o, writtenHeap heap a = some o ∧ Value.prim Prim.behaviour ∉ o.children

/-- A structured clone keeps the identities of what it writes. -/
structure IsClone (heap : JsHeap) (v : JsValue) (heap' : JsHeap) (v' : JsValue) : Prop where
  accepted : Accepted heap v
  same : SameGraph (writtenHeap heap) heap' v v'

/-! ### The copy of the pre-pass -/

def undefined : JsValue := .prim .undefined

/-- `props[key] = value` of an object without prototype. -/
def setProp (props : List (String × JsValue)) (key : String) (v : JsValue) :
    List (String × JsValue) :=
  if props.any fun prop => prop.1 == key then
    props.map fun prop => if prop.1 = key then (key, v) else prop
  else props ++ [(key, v)]

/-- `map.set(key, value)`. -/
def mapSet (entries : List (JsValue × JsValue)) (key v : JsValue) : List (JsValue × JsValue) :=
  if entries.any fun entry => sameKey entry.1 key then
    entries.map fun entry => if sameKey entry.1 key then (entry.1, v) else entry
  else entries ++ [(key, v)]

/-- `set.add(item)`. -/
def setAdd (items : List JsValue) (item : JsValue) : List JsValue :=
  if items.any fun other => sameKey other item then items else items ++ [item]

/-- A flat list of entries, key and value in turn. -/
def pairs : List JsValue → List (JsValue × JsValue)
  | key :: v :: rest => (key, v) :: pairs rest
  | _ => []

def recordOf (keys : List String) (values : List JsValue) : JsObject JsValue :=
  .record false ((keys.zip values).foldl (fun props prop => setProp props prop.1 prop.2) [])

/-- The values the pre-pass goes through, in order; the elements of an array by its iterator, which
reads a hole as `undefined`. -/
def JsObject.walked : JsObject JsValue → List JsValue
  | .record _ props => props.map Prod.snd
  | .array elements _ => elements.map fun element => element.getD undefined
  | .map entries => entries.flatMap fun entry => [entry.1, entry.2]
  | .set items => items
  | .boxed _ own => own.map Prod.snd
  | .refused _ (.record props) => props.map Prod.snd
  | .refused _ (.elements items) => items
  | _ => []

/-- The copy, of the values that stand for those. -/
def JsObject.rebuilt (o : JsObject JsValue) (values : List JsValue) : JsObject JsValue :=
  match o with
  | .array _ _ | .refused _ (.elements _) => .array (values.map some) []
  | .map _ => .map ((pairs values).foldl (fun entries entry => mapSet entries entry.1 entry.2) [])
  | .set _ => .set (values.foldl setAdd [])
  | .record _ props | .boxed _ props | .refused _ (.record props) =>
    recordOf (props.map Prod.fst) values
  | _ => .record false []

/-- Left to V8 as it is. -/
def JsObject.isKept {V : Type} : JsObject V → Bool
  | .native _ | .error _ _ _ | .refused _ .kept => true
  | _ => false

/-! ### Well-formed objects -/

/-- Property names are distinct, and so are the keys of a Map and the items of a Set. -/
def JsObject.Wf : JsObject JsValue → Prop
  | .record _ props => (props.map Prod.fst).Nodup
  | .map entries => (entries.map Prod.fst).Pairwise fun key key' => sameKey key key' = false
  | .set items => items.Pairwise fun item item' => sameKey item item' = false
  | .boxed _ own => (own.map Prod.fst).Nodup
  | .refused _ (.record props) => (props.map Prod.fst).Nodup
  | _ => True

/-- The copy is the same to the serializer: a plain object, a dense array without other properties,
a Map or a Set. -/
def JsObject.Plain : JsObject JsValue → Prop
  | .record _ _ => True
  | .array elements named => (∀ element ∈ elements, element.isSome) ∧ named = []
  | .map _ => True
  | .set _ => True
  | _ => False

theorem setProp_foldl (props done : List (String × JsValue))
    (h : ((done ++ props).map Prod.fst).Nodup) :
    props.foldl (fun props prop => setProp props prop.1 prop.2) done = done ++ props := by
  induction props generalizing done with
  | nil => simp
  | cons prop props ih =>
    have hnew : done.any (fun other => other.1 == prop.1) = false := by
      rw [List.any_eq_false]
      intro other hother heq
      rw [List.map_append, List.nodup_append] at h
      exact h.2.2 _ (List.mem_map_of_mem hother) prop.1 (by simp) (by simpa using heq)
    rw [List.foldl_cons, setProp, hnew]
    simpa using ih (done ++ [prop]) (by simpa using h)

theorem recordOf_eq {keys : List String} {values : List JsValue} (h : keys.Nodup)
    (hlen : keys.length = values.length) :
    recordOf keys values = .record false (keys.zip values) := by
  have hkeys : (([] ++ keys.zip values).map Prod.fst).Nodup := by
    rwa [List.nil_append, List.map_fst_zip hlen.le]
  unfold recordOf
  rw [setProp_foldl _ _ hkeys, List.nil_append]

theorem mapSet_foldl (entries done : List (JsValue × JsValue))
    (h : ((done ++ entries).map Prod.fst).Pairwise fun key key' => sameKey key key' = false) :
    entries.foldl (fun entries entry => mapSet entries entry.1 entry.2) done = done ++ entries := by
  induction entries generalizing done with
  | nil => simp
  | cons entry entries ih =>
    have hnew : done.any (fun other => sameKey other.1 entry.1) = false := by
      rw [List.any_eq_false]
      intro other hother heq
      rw [List.map_append, List.pairwise_append] at h
      rw [h.2.2 _ (List.mem_map_of_mem hother) entry.1 (by simp)] at heq
      cases heq
    rw [List.foldl_cons, mapSet, hnew]
    simpa using ih (done ++ [entry]) (by simpa using h)

theorem setAdd_foldl (items done : List JsValue)
    (h : (done ++ items).Pairwise fun item item' => sameKey item item' = false) :
    items.foldl setAdd done = done ++ items := by
  induction items generalizing done with
  | nil => simp
  | cons item items ih =>
    have hnew : done.any (fun other => sameKey other item) = false := by
      rw [List.any_eq_false]
      intro other hother heq
      rw [List.pairwise_append] at h
      rw [h.2.2 other hother item (by simp)] at heq
      cases heq
    rw [List.foldl_cons, setAdd, hnew]
    simpa using ih (done ++ [item]) (by simpa using h)

theorem sameKey_map {f : Nat → Nat} {v w : JsValue}
    (hf : ∀ a b, v = .ref a → w = .ref b → f a = f b → a = b) (h : sameKey v w = false) :
    sameKey (v.map f) (w.map f) = false := by
  cases v with
  | prim p =>
    cases w with
    | prim q => exact h
    | ref b => cases p <;> rfl
  | ref a =>
    cases w with
    | prim q => rfl
    | ref b =>
      have hab : a ≠ b := by
        rintro rfl
        simp [sameKey] at h
      have hne : f a ≠ f b := fun heq => hab (hf a b rfl rfl heq)
      simpa [sameKey] using hne

theorem pairs_flatMap (entries : List (JsValue × JsValue)) :
    pairs (entries.flatMap fun entry => [entry.1, entry.2]) = entries := by
  induction entries with
  | nil => rfl
  | cons entry entries ih =>
    show (entry.1, entry.2) :: pairs (entries.flatMap fun entry => [entry.1, entry.2]) = _
    rw [ih]

theorem zip_map_fst_snd (f : JsValue → JsValue) (props : List (String × JsValue)) :
    (props.map Prod.fst).zip ((props.map Prod.snd).map f) = mapProps f props := by
  induction props with
  | nil => rfl
  | cons prop props ih => simpa [mapProps] using ih

theorem rebuilt_record {ordinary : Bool} {props : List (String × JsValue)}
    (hwf : (JsObject.record ordinary props).Wf) (f : JsValue → JsValue) :
    (JsObject.record ordinary props).rebuilt ((props.map Prod.snd).map f) =
      .record false (mapProps f props) := by
  show recordOf _ _ = _
  rw [recordOf_eq hwf (by simp), zip_map_fst_snd]

/-- A dense array is the list of its values. -/
theorem some_children {elements : List (Option JsValue)}
    (h : ∀ element ∈ elements, element.isSome = true) :
    ((JsObject.array elements []).children).map some = elements := by
  show (elements.filterMap id ++ []).map some = elements
  rw [List.append_nil]
  induction elements with
  | nil => rfl
  | cons element elements ih =>
    obtain ⟨v, rfl⟩ := Option.isSome_iff_exists.mp (h element (by simp))
    simpa using ih fun other hother => h other (List.mem_cons_of_mem _ hother)

theorem walked_of_plain {o : JsObject JsValue} (h : o.Plain) : o.walked = o.children := by
  cases o with
  | array elements named =>
    obtain ⟨helements, rfl⟩ := h
    show elements.map (fun element => element.getD undefined) = elements.filterMap id ++ []
    rw [List.append_nil]
    induction elements with
    | nil => rfl
    | cons element elements ih =>
      obtain ⟨v, rfl⟩ := Option.isSome_iff_exists.mp (helements element (by simp))
      simpa using ih fun other hother => helements other (List.mem_cons_of_mem _ hother)
  | record _ _ => rfl
  | map _ => rfl
  | set _ => rfl
  | _ => exact h.elim

/-- **On plain objects the serializer sees no difference between an object and its copy.** -/
theorem written_rebuilt {o : JsObject JsValue} (hplain : o.Plain) (hwf : o.Wf) {f : Nat → Nat}
    (hf : ∀ a b, .ref a ∈ o.children → .ref b ∈ o.children → f a = f b → a = b) :
    (o.rebuilt (o.walked.map (Value.map f))).written =
      o.written.map (JsObject.mapValues (Value.map f)) := by
  cases o with
  | record ordinary props =>
    show ((JsObject.record ordinary props).rebuilt ((props.map Prod.snd).map (Value.map f))).written
      = _
    rw [rebuilt_record hwf]
    rfl
  | array elements named =>
    have hwalked := walked_of_plain hplain
    obtain ⟨helements, rfl⟩ := hplain
    have hsome := some_children helements
    generalize (JsObject.array elements []).children = values at hwalked hsome
    show some (JsObject.array (List.map some _) []) = some (JsObject.array _ _)
    rw [hwalked, ← hsome, List.map_map, List.map_map]
    rfl
  | map entries =>
    have hdistinct : ((entries.map fun entry =>
        (entry.1.map f, entry.2.map f)).map Prod.fst).Pairwise
          fun key key' => sameKey key key' = false := by
      rw [List.map_map, List.pairwise_map]
      have hpairs := List.pairwise_map.mp (show (entries.map Prod.fst).Pairwise _ from hwf)
      refine hpairs.imp_of_mem fun {entry other} hentry hother hsame => ?_
      refine sameKey_map (fun a b ha hb => hf a b ?_ ?_) hsame
      · exact List.mem_flatMap.mpr ⟨entry, hentry, by simp [ha]⟩
      · exact List.mem_flatMap.mpr ⟨other, hother, by simp [hb]⟩
    have hflat : (entries.flatMap fun entry => [entry.1, entry.2]).map (Value.map f) =
        (entries.map fun entry => (entry.1.map f, entry.2.map f)).flatMap
          fun entry => [entry.1, entry.2] := by
      rw [List.map_flatMap, List.flatMap_map]
      rfl
    show some (JsObject.map ((pairs _).foldl _ [])) = some (JsObject.map _)
    rw [show JsObject.walked (.map entries) = entries.flatMap fun entry => [entry.1, entry.2] from rfl,
      hflat, pairs_flatMap, mapSet_foldl _ [] (by simpa using hdistinct), List.nil_append]
  | set items =>
    have hdistinct : (items.map (Value.map f)).Pairwise
        fun item item' => sameKey item item' = false := by
      rw [List.pairwise_map]
      refine List.Pairwise.imp_of_mem (fun {item other} hitem hother hsame => ?_) hwf
      exact sameKey_map (fun a b ha hb => hf a b (ha ▸ hitem) (hb ▸ hother)) hsame
    show some (JsObject.set (List.foldl setAdd [] (items.map (Value.map f)))) = some (JsObject.set _)
    rw [setAdd_foldl _ [] (by simpa using hdistinct), List.nil_append]
  | _ => exact hplain.elim

/-! ### Well-formed heaps -/

/-- What is walked are values of the object, and `undefined` for the holes. -/
theorem ref_mem_children {o : JsObject JsValue} {c : Nat} (h : .ref c ∈ o.walked) :
    .ref c ∈ o.children := by
  cases o with
  | array elements named =>
    obtain ⟨element, helement, heq⟩ := List.mem_map.mp h
    cases element with
    | none => cases heq
    | some v =>
      refine List.mem_append_left _ (List.mem_filterMap.mpr ⟨some v, helement, ?_⟩)
      exact congrArg some heq
  | refused _ view => cases view <;> exact h
  | record _ _ => exact h
  | map _ => exact h
  | set _ => exact h
  | boxed _ _ => exact h
  | _ => exact absurd h List.not_mem_nil

/-- The objects of a heap are well formed and hold no dangling references. -/
structure WfHeap (heap : List (JsObject JsValue)) : Prop where
  wf : ∀ (a : Nat) (o : JsObject JsValue), heap[a]? = some o → o.Wf
  closed : ∀ (a : Nat) (o : JsObject JsValue), heap[a]? = some o →
    ∀ c, .ref c ∈ o.children → c < heap.length

/-- The value is no dangling reference. -/
def InHeap (heap : List (JsObject JsValue)) (v : JsValue) : Prop :=
  ∀ a, v = .ref a → a < heap.length

end Iso4
