/-
A body made of an async iterable, read in the sandbox and read by the host: `drainStream` of
`crates/core/src/webtypes.js`, and `chunk_from_pull` and `drive_out_stream` of
`crates/core/src/v8/streams.rs`.

* `BodyDrain.drainStream` — the chunks by reference first, and their bytes at the end;
* `BodyDrain.hostRead` — each chunk's bytes as it is taken;
* `BodyDrain.host_reads` — what the host has when a stream came to its end, in any run;
* `BodyDrain.drain_iff` — the iterables of which a guest gets the same bytes.
-/
import Iso4.OutDrive
import Iso4.TextCodec
import Iso4.WebBodies
import Iso4.Lib.Utf16

namespace Iso4

open Ipc (Blob)
open Execution

namespace BodyDrain

open OneShot (Data)

/-! ### Async iterables -/

/-- The bytes of each array, by its identity; `none` once it is detached. -/
abbrev Memory := Nat → Option Blob

/-- A chunk, and the memory when its consumer takes it. -/
structure Yield where
  chunk : Data
  memory : Memory

/-- An iterable that ends.  Its arrays stay in the hands of the guest: `atEnd` is the memory when
it says `done`. -/
structure AsyncIterable where
  yields : List Yield
  atEnd : Memory

/-! ### `drainStream` -/

/-- `chunk.byteLength`: a string has none. -/
def byteLength (memory : Memory) : Data → Option Nat
  | .bytes b => some ((memory b).getD []).length
  | .text _ => none

/-- A sum of numbers of which one is `undefined` or `NaN` is `NaN`. -/
def plus : Option Nat → Option Nat → Option Nat
  | some a, some b => some (a + b)
  | _, _ => none

/-- `chunks` and `total`. -/
structure Collected where
  chunks : List Data
  total : Option Nat

/-- The `for await` loop. -/
def collect : List Yield → Collected → Collected
  | [], c => c
  | y :: ys, c => collect ys ⟨c.chunks ++ [y.chunk], plus c.total (byteLength y.memory y.chunk)⟩

/-- A code unit, alone, as the number of an array's element. -/
def digitByte (u : UInt16) : UInt8 :=
  if 0x30 ≤ u.toNat ∧ u.toNat ≤ 0x39 then UInt8.ofNat (u.toNat - 0x30) else 0

/-- What `out.set` reads: the elements of an array, unless it is detached, or those of an
array-like string. -/
def elements (memory : Memory) : Data → Option Blob
  | .bytes b => memory b
  | .text value => some ((value.toList.flatMap Utf16.units).map digitByte)

/-- `out.set(chunk, offset)`, or `none` when it throws. -/
def setAt (out : Blob) (offset : Nat) (elems : Blob) : Option Blob :=
  if out.length < offset + elems.length then none
  else some (out.take offset ++ elems ++ out.drop (offset + elems.length))

/-- The second loop.  An offset of `NaN` is taken for 0. -/
def fill (memory : Memory) : List Data → Option Nat → Blob → Option Blob
  | [], _, out => some out
  | chunk :: chunks, offset, out =>
    ((elements memory chunk).bind (setAt out (offset.getD 0))).bind
      (fill memory chunks (plus offset (byteLength memory chunk)))

/-- `new Uint8Array(NaN)` is empty. -/
def drainStream (it : AsyncIterable) : Option Blob :=
  let c := collect it.yields ⟨[], some 0⟩
  fill it.atEnd c.chunks (some 0) (List.replicate (c.total.getD 0) 0)

/-! ### The body helpers -/

def bytes (it : AsyncIterable) : Option Blob := drainStream it

/-- `bytes.buffer.slice(…)`: a copy. -/
def arrayBuffer (it : AsyncIterable) : Option Blob := drainStream it

def text (it : AsyncIterable) : Option Units := (drainStream it).map WebTypes.utf8Decode

/-! ### The host's side -/

/-- A chunk as the driver finds it. -/
def Yield.value (y : Yield) : PullValue :=
  match y.chunk with
  | .bytes b => .bytes ((y.memory b).getD [])
  | .text value => .text value

/-- The bytes of a chunk as it is taken. -/
def Yield.bytes (y : Yield) : Blob := (PullResult.fulfilled y.value).yields

def hostRead (it : AsyncIterable) : Blob := it.yields.flatMap Yield.bytes

/-- What the pulls of `bodyInit` return for an iterable: promises that settle, each in its own
time, to the chunks and then to `null`. -/
inductive Follows : List PullStart → List Yield → Prop where
  | eof (delay : Nat) : Follows [.returned ⟨some delay, .fulfilled .nullish⟩] []
  | yield (delay : Nat) {y : Yield} {src : List PullStart} {ys : List Yield} (h : Follows src ys) :
    Follows (.returned ⟨some delay, .fulfilled y.value⟩ :: src) (y :: ys)

/-- A stream and the frames it sent; `halted` after a turn that was terminated. -/
structure Outbound where
  stream : OutBody
  frames : List BodyFrame
  halted : Bool

inductive OutboundOp where
  | drive (terminating : Bool)
  | checkpoint
  | grant (credit : Nat)
  | cancel (reason : String) (notifyHost : Bool)
  | close (message : String)

namespace Outbound

def new (source : List PullStart) (sends : List Bool) : Outbound := ⟨.new source sends, [], false⟩

def put (o : Outbound) (r : OutBody × List BodyFrame) : Outbound := ⟨r.1, o.frames ++ r.2, o.halted⟩

def step (o : Outbound) : OutboundOp → Outbound
  | .drive terminating =>
    if o.halted then o
    else
      ⟨(o.stream.drive terminating).1, o.frames ++ (o.stream.drive terminating).2.1, terminating⟩
  | .checkpoint => o.put (o.stream.tick, [])
  | .grant credit => o.put (o.stream.noteCredit credit, [])
  | .cancel reason notifyHost => o.put (o.stream.cancel reason notifyHost)
  | .close message => o.put (o.stream.close message)

end Outbound

/-- The bytes of the chunks in frames. -/
def received (frames : List BodyFrame) : Blob :=
  frames.flatMap fun
    | .chunk data => data
    | .ended _ => []

/-! ### Which iterables agree -/

/-- What a chunk that is an array holds once the iterable has ended. -/
def Yield.kept (atEnd : Memory) (y : Yield) : Blob := (elements atEnd y.chunk).getD []

/-- Every chunk is an array, and is still there at the end. -/
def Arrays (it : AsyncIterable) : Prop :=
  ∀ y ∈ it.yields, ∃ b, y.chunk = .bytes b ∧ (it.atEnd b).isSome

/-- In the end the arrays hold the bytes that were yielded, but for zeros after them. -/
def Unchanged (it : AsyncIterable) : Prop :=
  ∃ n, it.yields.flatMap Yield.bytes = it.yields.flatMap (Yield.kept it.atEnd) ++ List.replicate n 0

/-- Every chunk is empty, when it is yielded and in the end. -/
def Empty (it : AsyncIterable) : Prop :=
  ∀ y ∈ it.yields, y.bytes = [] ∧ elements it.atEnd y.chunk = some []

/-- The iterables that a guest drains as the host reads them. -/
def Plain (it : AsyncIterable) : Prop := Arrays it ∧ Unchanged it ∨ Empty it

/-! ### The drain -/

theorem collect_eq (ys : List Yield) (c : Collected) :
    collect ys c = ⟨c.chunks ++ ys.map Yield.chunk,
      ys.foldl (fun total y => plus total (byteLength y.memory y.chunk)) c.total⟩ := by
  induction ys generalizing c with
  | nil => simp [collect]
  | cons y ys ih => simp [collect, ih]

theorem bytes_of_array {y : Yield} {b : Nat} (h : y.chunk = .bytes b) :
    y.bytes = (y.memory b).getD [] := by
  simp [Yield.bytes, Yield.value, h, PullResult.yields, PullResult.outcome, chunkFromPull]

theorem bytes_of_text {y : Yield} {value : String} (h : y.chunk = .text value) :
    y.bytes = value.toUTF8.toList := by
  simp [Yield.bytes, Yield.value, h, PullResult.yields, PullResult.outcome, chunkFromPull]

/-- The total of arrays is the number of their bytes. -/
theorem total_arrays {ys : List Yield} (h : ∀ y ∈ ys, ∃ b, y.chunk = .bytes b) (n : Nat) :
    ys.foldl (fun total y => plus total (byteLength y.memory y.chunk)) (some n) =
      some (n + (ys.flatMap Yield.bytes).length) := by
  induction ys generalizing n with
  | nil => rfl
  | cons y ys ih =>
    obtain ⟨b, hb⟩ := h y List.mem_cons_self
    have hlen : byteLength y.memory y.chunk = some y.bytes.length := by
      rw [bytes_of_array hb, hb]
      rfl
    rw [List.foldl_cons, hlen]
    show List.foldl _ (some (n + y.bytes.length)) ys = _
    rw [ih fun x hx => h x (List.mem_cons_of_mem y hx), List.flatMap_cons, List.length_append,
      Nat.add_assoc]

theorem total_none (ys : List Yield) :
    ys.foldl (fun total y => plus total (byteLength y.memory y.chunk)) none = none := by
  induction ys with
  | nil => rfl
  | cons y ys ih => exact ih

/-- With a string among the chunks the total is `NaN`. -/
theorem total_text {ys : List Yield} (h : ∃ y ∈ ys, ∃ value, y.chunk = .text value)
    (a : Option Nat) :
    ys.foldl (fun total y => plus total (byteLength y.memory y.chunk)) a = none := by
  induction ys generalizing a with
  | nil =>
    obtain ⟨y, hy, -⟩ := h
    cases hy
  | cons y ys ih =>
    obtain ⟨x, hx, value, hvalue⟩ := h
    rw [List.foldl_cons]
    obtain rfl | hx := List.mem_cons.mp hx
    · have hnone : plus a (byteLength x.memory x.chunk) = none := by
        rw [hvalue]
        cases a <;> rfl
      rw [hnone, total_none]
    · exact ih ⟨x, hx, value, hvalue⟩ _

/-- Arrays go into the buffer one after another, as far as they fit. -/
theorem fill_arrays {memory : Memory} {ys : List Yield}
    (h : ∀ y ∈ ys, ∃ b, y.chunk = .bytes b ∧ (memory b).isSome) {offset : Nat} {out : Blob}
    (hoffset : offset ≤ out.length) :
    fill memory (ys.map Yield.chunk) (some offset) out =
      if out.length < offset + (ys.flatMap (Yield.kept memory)).length then none
      else some (out.take offset ++ ys.flatMap (Yield.kept memory) ++
        out.drop (offset + (ys.flatMap (Yield.kept memory)).length)) := by
  induction ys generalizing offset out with
  | nil =>
    rw [if_neg (by simpa using hoffset)]
    simp [fill]
  | cons y ys ih =>
    obtain ⟨b, hb, hsome⟩ := h y List.mem_cons_self
    obtain ⟨bs, hbs⟩ := Option.isSome_iff_exists.mp hsome
    have helems : elements memory y.chunk = some bs := by rw [hb, elements, hbs]
    have hkept : Yield.kept memory y = bs := by rw [Yield.kept, helems]; rfl
    have hlen : byteLength memory y.chunk = some bs.length := by rw [hb, byteLength, hbs]; rfl
    rw [List.map_cons, fill, helems, hlen, List.flatMap_cons, hkept, List.length_append]
    show (setAt out offset bs).bind (fill memory (ys.map Yield.chunk) (some (offset + bs.length))) = _
    by_cases hfit : out.length < offset + bs.length
    · rw [setAt, if_pos hfit, if_pos (by omega)]
      rfl
    · have hset : setAt out offset bs =
          some (out.take offset ++ bs ++ out.drop (offset + bs.length)) := if_neg hfit
      have hout : (out.take offset ++ bs ++ out.drop (offset + bs.length)).length = out.length := by
        simp only [List.length_append, List.length_take, List.length_drop]
        omega
      rw [hset, Option.bind_some, ih (fun x hx => h x (List.mem_cons_of_mem y hx)) (by omega), hout]
      have htake : (out.take offset ++ bs ++ out.drop (offset + bs.length)).take
          (offset + bs.length) = out.take offset ++ bs := by
        rw [List.take_append_of_le_length (by simp; omega), List.take_of_length_le (by simp)]
      have hdrop : ∀ n, (out.take offset ++ bs ++ out.drop (offset + bs.length)).drop
          (offset + bs.length + n) = out.drop (offset + (bs.length + n)) := by
        intro n
        have hl : (out.take offset ++ bs).length = offset + bs.length := by simp; omega
        rw [← hl, List.drop_length_add_append, List.drop_drop, hl, Nat.add_assoc]
      rw [htake, hdrop, Nat.add_assoc]
      simp only [List.append_assoc]

theorem drainStream_arrays {it : AsyncIterable} (h : Arrays it) :
    drainStream it =
      if (it.yields.flatMap Yield.bytes).length <
          (it.yields.flatMap (Yield.kept it.atEnd)).length then none
      else some (it.yields.flatMap (Yield.kept it.atEnd) ++
        List.replicate ((it.yields.flatMap Yield.bytes).length -
          (it.yields.flatMap (Yield.kept it.atEnd)).length) 0) := by
  have htotal := total_arrays (fun y hy => (h y hy).imp fun b hb => hb.1) 0
  rw [Nat.zero_add] at htotal
  rw [drainStream, collect_eq]
  dsimp only
  rw [htotal, List.nil_append, Option.getD_some, fill_arrays h (Nat.zero_le _), Nat.zero_add,
    List.length_replicate, List.take_zero, List.nil_append, List.drop_replicate]

/-- Arrays come out as the host reads them when they are unchanged. -/
theorem drainStream_arrays_iff {it : AsyncIterable} (h : Arrays it) :
    drainStream it = some (hostRead it) ↔ Unchanged it := by
  rw [drainStream_arrays h, hostRead, Unchanged]
  constructor
  · intro heq
    split at heq
    · cases heq
    · exact ⟨_, (Option.some.inj heq).symm⟩
  · rintro ⟨n, hn⟩
    have hlen : (it.yields.flatMap Yield.bytes).length =
        (it.yields.flatMap (Yield.kept it.atEnd)).length + n := by
      rw [hn, List.length_append, List.length_replicate]
    rw [if_neg (by omega), hlen, Nat.add_sub_cancel_left, ← hn]

/-- Into an empty buffer nothing goes but what is empty. -/
theorem fill_nil {memory : Memory} {chunks : List Data} {offset : Option Nat}
    (hoffset : offset.getD 0 = 0) :
    (∀ c ∈ chunks, elements memory c = some []) ∧ fill memory chunks offset [] = some [] ∨
      (∃ c ∈ chunks, elements memory c ≠ some []) ∧ fill memory chunks offset [] = none := by
  induction chunks generalizing offset with
  | nil => exact .inl ⟨fun c hc => absurd hc List.not_mem_nil, rfl⟩
  | cons c chunks ih =>
    cases helems : elements memory c with
    | none =>
      refine .inr ⟨⟨c, List.mem_cons_self, by rw [helems]; simp⟩, ?_⟩
      rw [fill, helems]
      rfl
    | some elems =>
      cases elems with
      | cons e elems =>
        refine .inr ⟨⟨c, List.mem_cons_self, by rw [helems]; simp⟩, ?_⟩
        have hset : setAt [] (offset.getD 0) (e :: elems) = none :=
          if_pos (by simp only [List.length_nil, List.length_cons]; omega)
        rw [fill, helems, Option.bind_some, hset]
        rfl
      | nil =>
        have hnext : (plus offset (byteLength memory c)).getD 0 = 0 := by
          cases c with
          | text value => cases offset <;> rfl
          | bytes b =>
            have hb : memory b = some [] := helems
            rw [byteLength, hb]
            cases offset with
            | none => rfl
            | some k => exact hoffset
        have hset : setAt [] (offset.getD 0) [] = some [] := by
          rw [hoffset]
          rfl
        have hfill : fill memory (c :: chunks) offset [] =
            fill memory chunks (plus offset (byteLength memory c)) [] := by
          rw [fill, helems, Option.bind_some, hset]
          rfl
        rw [hfill]
        obtain ⟨hall, hrest⟩ | ⟨⟨x, hx, hne⟩, hrest⟩ := ih hnext
        · refine .inl ⟨fun x hx => ?_, hrest⟩
          obtain rfl | hx := List.mem_cons.mp hx
          · exact helems
          · exact hall x hx
        · exact .inr ⟨⟨x, List.mem_cons_of_mem c hx, hne⟩, hrest⟩

/-- With a string among the chunks only empty ones are drained. -/
theorem drainStream_text_iff {it : AsyncIterable}
    (h : ∃ y ∈ it.yields, ∃ value, y.chunk = .text value) :
    drainStream it = some (hostRead it) ↔ Empty it := by
  have hdrain : drainStream it = fill it.atEnd (it.yields.map Yield.chunk) (some 0) [] := by
    rw [drainStream, collect_eq]
    dsimp only
    rw [total_text h, List.nil_append]
    rfl
  rw [hdrain]
  obtain ⟨hall, hfill⟩ | ⟨⟨c, hc, hne⟩, hfill⟩ :=
    @fill_nil it.atEnd (it.yields.map Yield.chunk) (some 0) rfl
  · rw [hfill]
    constructor
    · intro heq y hy
      have hread : hostRead it = [] := (Option.some.inj heq).symm
      exact ⟨List.flatMap_eq_nil_iff.mp hread y hy, hall _ (List.mem_map_of_mem hy)⟩
    · intro hempty
      exact congrArg some (List.flatMap_eq_nil_iff.mpr fun y hy => (hempty y hy).1).symm
  · rw [hfill]
    obtain ⟨y, hy, rfl⟩ := List.mem_map.mp hc
    constructor
    · intro heq
      cases heq
    · intro hempty
      exact absurd (hempty y hy).2 hne

/-- An array that is detached in the end makes the drain fail. -/
theorem fill_detached {memory : Memory} {chunks : List Data}
    (h : ∃ c ∈ chunks, elements memory c = none) (offset : Option Nat) (out : Blob) :
    fill memory chunks offset out = none := by
  induction chunks generalizing offset out with
  | nil =>
    obtain ⟨c, hc, -⟩ := h
    cases hc
  | cons c chunks ih =>
    rw [fill]
    cases helems : elements memory c with
    | none => rfl
    | some elems =>
      have hrest : ∃ x ∈ chunks, elements memory x = none := by
        obtain ⟨x, hx, hnone⟩ := h
        obtain rfl | hx := List.mem_cons.mp hx
        · rw [hnone] at helems
          cases helems
        · exact ⟨x, hx, hnone⟩
      rw [Option.bind_some]
      cases setAt out (offset.getD 0) elems with
      | none => rfl
      | some out => exact ih hrest _ out

theorem Empty.unchanged {it : AsyncIterable} (h : Empty it) : Unchanged it := by
  have hread : it.yields.flatMap Yield.bytes = [] :=
    List.flatMap_eq_nil_iff.mpr fun y hy => (h y hy).1
  have hkept : it.yields.flatMap (Yield.kept it.atEnd) = [] :=
    List.flatMap_eq_nil_iff.mpr fun y hy => by rw [Yield.kept, (h y hy).2]; rfl
  exact ⟨0, by rw [hread, hkept]; rfl⟩

/-- The iterables of which the drain is what the host reads. -/
theorem drainStream_iff (it : AsyncIterable) :
    drainStream it = some (hostRead it) ↔ Plain it := by
  by_cases htext : ∃ y ∈ it.yields, ∃ value, y.chunk = .text value
  · rw [drainStream_text_iff htext]
    constructor
    · exact .inr
    · rintro (⟨harrays, -⟩ | hempty)
      · obtain ⟨y, hy, value, hvalue⟩ := htext
        obtain ⟨b, hb, -⟩ := harrays y hy
        rw [hb] at hvalue
        cases hvalue
      · exact hempty
  · by_cases harrays : Arrays it
    · rw [drainStream_arrays_iff harrays]
      exact ⟨fun h => .inl ⟨harrays, h⟩, fun h => h.elim And.right Empty.unchanged⟩
    · have hdetached : ∃ y ∈ it.yields, elements it.atEnd y.chunk = none := by
        by_contra hnone
        refine harrays fun y hy => ?_
        cases hchunk : y.chunk with
        | text value => exact absurd ⟨y, hy, value, hchunk⟩ htext
        | bytes b =>
          refine ⟨b, rfl, ?_⟩
          cases hb : it.atEnd b with
          | some bs => rfl
          | none => exact absurd ⟨y, hy, by rw [hchunk]; exact hb⟩ hnone
      obtain ⟨y, hy, hnone⟩ := hdetached
      have hdrain : drainStream it = none := by
        rw [drainStream, collect_eq]
        exact fill_detached ⟨y.chunk, List.mem_map_of_mem hy, hnone⟩ _ _
      rw [hdrain]
      constructor
      · intro h
        cases h
      · rintro (⟨h, -⟩ | hempty)
        · exact absurd h harrays
        · have hsome := (hempty y hy).2
          rw [hnone] at hsome
          cases hsome

/-! ### The stream of an iterable -/

/-- The bytes of a pull that has not settled yet. -/
def unsettled (p : Pull) : Blob := if p.delay = some 0 then [] else p.result.yields

/-- The bytes of a pull that has not begun. -/
def startBytes : PullStart → Blob
  | .threw _ => []
  | .returned p => p.result.yields

/-- The bytes to come and those that came are `total`, and nothing but them is to come. -/
structure Feeds (total : Blob) (s : OutBody) : Prop where
  follows : ∃ ys, Follows (s.pending.toList.map .returned ++ s.source) ys
  bytes : s.yielded ++ (s.pending.toList.flatMap unsettled ++ s.source.flatMap startBytes) = total

theorem Follows.bytes {src : List PullStart} {ys : List Yield} (h : Follows src ys) :
    src.flatMap startBytes = ys.flatMap Yield.bytes := by
  induction h with
  | eof delay => rfl
  | yield delay h ih =>
    rw [List.flatMap_cons, List.flatMap_cons, ih]
    rfl

theorem feeds_new {src : List PullStart} {ys : List Yield} (h : Follows src ys)
    (sends : List Bool) : Feeds (ys.flatMap Yield.bytes) (.new src sends) :=
  ⟨⟨ys, h⟩, h.bytes⟩

theorem Feeds.same {total : Blob} {s s' : OutBody} (h : Feeds total s)
    (hpending : s'.pending = s.pending) (hsource : s'.source = s.source)
    (hyielded : s'.yielded = s.yielded) : Feeds total s' := by
  constructor
  · rw [hpending, hsource]
    exact h.follows
  · rw [hpending, hsource, hyielded]
    exact h.bytes

theorem settled_append_unsettled (p : Pull) : p.settledBytes ++ unsettled p = p.result.yields := by
  unfold Pull.settledBytes unsettled
  split
  · exact List.append_nil _
  · exact List.nil_append _

theorem flushLoop_yielded (fuel : Nat) (s : OutBody) :
    (OutBody.flushLoop fuel s).1.yielded = s.yielded ∧
      ∀ e, .ended e ∉ (OutBody.flushLoop fuel s).2.1 := by
  induction fuel generalizing s with
  | zero => exact ⟨rfl, fun e he => absurd he List.not_mem_nil⟩
  | succ fuel ih =>
    unfold OutBody.flushLoop
    split
    · exact ⟨rfl, fun e he => absurd he List.not_mem_nil⟩
    · simp only [OutBody.send]
      cases s.sends.headD true with
      | true =>
        refine ⟨(ih _).1, fun e he => ?_⟩
        obtain he | he := List.mem_cons.mp he
        · cases he
        · exact (ih _).2 e he
      | false => exact ⟨rfl, fun e he => absurd he List.not_mem_nil⟩

theorem classify_yielded (s : OutBody) :
    s.classify.1.yielded = s.yielded ∧ ∀ e, .ended e ∉ s.classify.2.1 := by
  have hflush := flushLoop_yielded (s.backlog.length - s.backlogSent) s
  unfold OutBody.classify
  split
  · exact ⟨rfl, fun e he => absurd he List.not_mem_nil⟩
  · dsimp only
    split
    · exact hflush
    · refine ⟨?_, hflush.2⟩
      have hcompact : s.flush.1.compact.yielded = s.flush.1.yielded := by
        unfold OutBody.compact
        split <;> rfl
      exact hcompact.trans hflush.1

theorem Feeds.classify {total : Blob} {s : OutBody} (h : Feeds total s) :
    Feeds total s.classify.1 :=
  h.same (OutBody.classify_rest s).1 (OutBody.classify_rest s).2 (classify_yielded s).1

/-- The next pull of an iterable settles to its end, or to a chunk. -/
theorem Follows.next {src : List PullStart} {ys : List Yield} (h : Follows src ys) :
    ∃ (delay : Nat) (v : PullValue) (rest : List PullStart),
      src = .returned ⟨some delay, .fulfilled v⟩ :: rest ∧
        (v = .nullish ∧ rest = [] ∨ ∃ y ys', v = Yield.value y ∧ Follows rest ys') := by
  cases h with
  | eof delay => exact ⟨delay, _, _, rfl, .inl ⟨rfl, rfl⟩⟩
  | yield delay h => exact ⟨delay, _, _, rfl, .inr ⟨_, _, rfl, h⟩⟩

/-- The next pull begins; it does not throw, and sends nothing. -/
theorem Feeds.startPull {total : Blob} {s : OutBody} (h : Feeds total s) (hp : s.pending = none)
    (terminating progressed : Bool) :
    (terminating = false → Feeds total (s.startPull terminating progressed).1) ∧
      (s.startPull terminating progressed).2.1 = [] := by
  obtain ⟨ys, hfollows⟩ := h.follows
  have hbytes := h.bytes
  rw [hp] at hfollows hbytes
  obtain ⟨delay, v, rest, hsource, -⟩ := hfollows.next
  have hsource : s.source = .returned ⟨some delay, .fulfilled v⟩ :: rest := hsource
  rw [hsource] at hfollows hbytes
  simp only [OutBody.startPull, hsource, List.headD_cons, List.tail_cons]
  cases terminating with
  | true =>
    rw [if_pos rfl]
    exact ⟨fun h => by simp at h, rfl⟩
  | false =>
    rw [if_neg (by simp)]
    refine ⟨fun _ => ⟨⟨ys, hfollows⟩, ?_⟩, rfl⟩
    rw [← hbytes]
    simp only [Option.toList_some, Option.toList_none, List.flatMap_cons, List.flatMap_nil,
      List.append_nil, List.nil_append, List.append_assoc, startBytes]
    rw [← List.append_assoc (Pull.settledBytes _), settled_append_unsettled]

/-- A settled pull is a chunk, and the stream goes on, or it is the end, and all bytes came. -/
theorem Feeds.settle {total : Blob} {s : OutBody} {p : Pull} (h : Feeds total s)
    (hp : s.pending = some p) (hdelay : p.delay = some 0) :
    (Feeds total (s.settle p.result.outcome).1 ∧ (s.settle p.result.outcome).2 = [] ∧
        (s.settle p.result.outcome).1.done = s.done) ∨
      (s.settle p.result.outcome).1.done = true ∧
        (s.settle p.result.outcome).1.yielded = total := by
  obtain ⟨ys, hfollows⟩ := h.follows
  have hbytes := h.bytes
  rw [hp] at hfollows hbytes
  obtain ⟨delay, v, rest, hsource, hcases⟩ := hfollows.next
  obtain ⟨hhead, rfl⟩ : PullStart.returned p = .returned ⟨some delay, .fulfilled v⟩ ∧
      s.source = rest := List.cons.inj hsource
  obtain rfl := PullStart.returned.inj hhead
  have hsettled : unsettled ⟨some delay, .fulfilled v⟩ = [] := if_pos hdelay
  simp only [Option.toList_some, List.flatMap_singleton, hsettled, List.nil_append] at hbytes
  obtain ⟨rfl, hnil⟩ | ⟨y, ys', rfl, hrest⟩ := hcases
  · refine .inr ⟨rfl, ?_⟩
    rw [hnil, List.flatMap_nil, List.append_nil] at hbytes
    exact hbytes
  · have houtcome : (PullResult.fulfilled y.value).outcome = .ok (some y.bytes) := by
      cases hchunk : y.chunk with
      | bytes b => simp [PullResult.outcome, chunkFromPull, Yield.value, bytes_of_array hchunk, hchunk]
      | text value => simp [PullResult.outcome, chunkFromPull, Yield.value, bytes_of_text hchunk, hchunk]
    refine .inl ?_
    rw [houtcome]
    exact ⟨⟨⟨ys', hrest⟩, hbytes⟩, rfl, rfl⟩

/-- A drive sends a clean end when all bytes came, and otherwise leaves the rest to come. -/
theorem Feeds.drive {total : Blob} {s : OutBody} (h : Feeds total s) (terminating : Bool) :
    (terminating = false → (s.drive terminating).1.done = false →
        Feeds total (s.drive terminating).1) ∧
      (.ended none ∈ (s.drive terminating).2.1 → (s.drive terminating).1.yielded = total) := by
  have hclassify := h.classify
  have hframes := (classify_yielded s).2 none
  have hnext := OutBody.classify_next s
  unfold OutBody.drive
  split
  · next s' fs progressed heq =>
    rw [heq] at hclassify hframes
    exact ⟨fun _ _ => hclassify, fun he => absurd he hframes⟩
  · next s' fs progressed heq =>
    rw [heq] at hclassify hframes hnext
    obtain ⟨hstart, hnone⟩ :=
      Feeds.startPull (s := s') hclassify (OutBody.next_startPull hnext.symm) terminating progressed
    refine ⟨fun ht _ => hstart ht, fun he => ?_⟩
    dsimp only at he
    rw [hnone, List.append_nil] at he
    exact absurd he hframes
  · next s' fs progressed p heq =>
    rw [heq] at hclassify hframes hnext
    have hp := OutBody.next_await hnext.symm
    split
    · exact ⟨fun _ _ => hclassify, fun he => absurd he hframes⟩
    · next hdelay =>
      dsimp only
      have hsettle := Feeds.settle (s := s') hclassify hp (by simpa using hdelay)
      generalize s'.settle p.result.outcome = r at hsettle ⊢
      obtain ⟨hfeeds, hquiet, -⟩ | ⟨hdone, htotal⟩ := hsettle
      · have hclassify' := hfeeds.classify
        have hframes' := (classify_yielded r.1).2 none
        have hnext' := OutBody.classify_next r.1
        rw [hquiet]
        split
        · next t more _ heq' =>
          rw [heq'] at hclassify' hframes' hnext'
          obtain ⟨hstart, hnone⟩ :=
            Feeds.startPull (s := t) hclassify' (OutBody.next_startPull hnext'.symm) terminating true
          refine ⟨fun ht _ => hstart ht, fun he => ?_⟩
          dsimp only at he
          rw [hnone, List.append_nil, List.append_nil] at he
          exact (List.mem_append.mp he).elim (absurd · hframes) (absurd · hframes')
        · next t more _ _ _ heq' =>
          rw [heq'] at hclassify' hframes'
          refine ⟨fun _ _ => hclassify', fun he => ?_⟩
          dsimp only at he
          rw [List.append_nil] at he
          exact (List.mem_append.mp he).elim (absurd · hframes) (absurd · hframes')
      · have hover : r.1.classify = (r.1, [], false, .idle) := by
          rw [OutBody.classify, if_pos hdone]
        rw [hover]
        refine ⟨fun _ hopen => ?_, fun _ => htotal⟩
        rw [show _ = true from hdone] at hopen
        cases hopen

/-! ### Any run of it -/

/-- What a run of the stream keeps. -/
structure Delivers (total : Blob) (o : Outbound) : Prop where
  sound : o.stream.Sound (!o.halted) o.frames
  feeds : o.halted = false → o.stream.done = false → Feeds total o.stream
  complete : .ended none ∈ o.frames → o.stream.yielded = total

/-- After a clean end the stream is over, and has no pull left. -/
theorem over_of_clean {live : Bool} {s : OutBody} {frames : List BodyFrame}
    (h : s.Sound live frames) (he : .ended none ∈ frames) :
    s.done = true ∧ s.pending = none ∧ received frames = s.yielded := by
  obtain ⟨chunks, tail, rfl, hsent⟩ := h
  have htail : tail = [.ended none] := by
    obtain hmem | hmem := List.mem_append.mp he
    · obtain ⟨d, -, hd⟩ := List.mem_map.mp hmem
      cases hd
    · obtain rfl | ⟨-, e, rfl⟩ := hsent.ended
      · cases hmem
      · obtain heq := List.mem_singleton.mp hmem
        rw [← heq]
  obtain ⟨hpending, hflatten⟩ := hsent.clean htail
  refine ⟨?_, hpending, ?_⟩
  · obtain hnil | ⟨hdone, -⟩ := hsent.ended
    · rw [hnil] at htail
      cases htail
    · exact hdone
  · rw [← hflatten, htail, received, List.flatMap_append, List.flatMap_map]
    simp [List.flatMap_id']

theorem Feeds.tick {total : Blob} {s : OutBody} (h : Feeds total s) : Feeds total s.tick := by
  unfold OutBody.tick
  split
  · next d r hp =>
    obtain ⟨ys, hfollows⟩ := h.follows
    have hbytes := h.bytes
    rw [hp] at hfollows hbytes
    have hbefore : unsettled ⟨some (d + 1), r⟩ = r.yields := if_neg (by simp)
    have hnow : Pull.settledBytes ⟨some d, r⟩ ++ unsettled ⟨some d, r⟩ = r.yields :=
      settled_append_unsettled ⟨some d, r⟩
    refine ⟨?_, ?_⟩
    · obtain ⟨delay, v, rest, hsource, hcases⟩ := hfollows.next
      obtain ⟨hhead, rfl⟩ : PullStart.returned ⟨some (d + 1), r⟩ =
          .returned ⟨some delay, .fulfilled v⟩ ∧ s.source = rest := List.cons.inj hsource
      obtain rfl : r = .fulfilled v := congrArg Pull.result (PullStart.returned.inj hhead)
      show ∃ ys, Follows (.returned ⟨some d, .fulfilled v⟩ :: s.source) ys
      obtain ⟨rfl, hnil⟩ | ⟨y, ys', rfl, hrest⟩ := hcases
      · rw [hnil]
        exact ⟨[], .eof d⟩
      · exact ⟨y :: ys', .yield d hrest⟩
    · rw [← hbytes]
      simp only [Option.toList_some, List.flatMap_singleton, hbefore, List.append_assoc]
      rw [← List.append_assoc (Pull.settledBytes _), hnow]
  · exact h

/-- An operation that is no drive. -/
theorem Delivers.put {total : Blob} {o : Outbound} {r : OutBody × List BodyFrame}
    (h : Delivers total o) (hkeeps : o.stream.Keeps (!o.halted) r.2 r.1)
    (hfeeds : r.1.done = false →
      o.stream.done = false ∧ (Feeds total o.stream → Feeds total r.1))
    (hover : o.stream.done = true → o.stream.pending = none → r.1.yielded = o.stream.yielded)
    (hclean : .ended none ∉ r.2) : Delivers total (o.put r) := by
  refine ⟨hkeeps _ h.sound, fun hlive hopen => ?_, fun he => ?_⟩
  · exact (hfeeds hopen).2 (h.feeds hlive (hfeeds hopen).1)
  · obtain he | he := List.mem_append.mp he
    · obtain ⟨hdone, hpending, -⟩ := over_of_clean h.sound he
      exact (hover hdone hpending).trans (h.complete he)
    · exact absurd he hclean

theorem close_clean (s : OutBody) (message : String) : .ended none ∉ (s.close message).2 := by
  unfold OutBody.close
  split
  · exact List.not_mem_nil
  · simp only [OutBody.send]
    cases s.finish.sends.headD true with
    | true => simp
    | false => simp

/-- A stream that is closed is over, and what it yielded is left. -/
theorem close_over (s : OutBody) (message : String) :
    (s.close message).1.done = true ∧ (s.close message).1.yielded = s.yielded := by
  unfold OutBody.close
  split
  · next h => exact ⟨h, rfl⟩
  · exact ⟨rfl, rfl⟩

theorem cancel_over (s : OutBody) (reason : String) (notifyHost : Bool) :
    (s.cancel reason notifyHost).1.done = true ∧
      (s.cancel reason notifyHost).1.yielded = s.yielded ∧
      .ended none ∉ (s.cancel reason notifyHost).2 := by
  unfold OutBody.cancel
  split
  · exact ⟨(close_over s reason).1, (close_over s reason).2, close_clean s reason⟩
  · split
    · next h => exact ⟨h, rfl, List.not_mem_nil⟩
    · exact ⟨rfl, rfl, List.not_mem_nil⟩

theorem delivers_step {total : Blob} (o : Outbound) (op : OutboundOp) (h : Delivers total o) :
    Delivers total (o.step op) := by
  cases op with
  | drive terminating =>
    show Delivers total (if o.halted then o else _)
    cases hlive : o.halted with
    | true => exact h
    | false =>
      rw [if_neg (by simp)]
      have hsound := h.sound
      rw [hlive] at hsound
      refine ⟨OutBody.sound_drive terminating hsound, ?_, ?_⟩
      · intro hgo hopen
        by_cases hdone : o.stream.done = true
        · rw [OutBody.drive_done hdone, hdone] at hopen
          cases hopen
        · exact ((h.feeds hlive (by simpa using hdone)).drive terminating).1 hgo hopen
      · intro he
        by_cases hdone : o.stream.done = true
        · rw [OutBody.drive_done hdone] at he ⊢
          rw [List.append_nil] at he
          exact h.complete he
        · obtain he | he := List.mem_append.mp he
          · exact absurd (over_of_clean hsound he).1 hdone
          · exact ((h.feeds hlive (by simpa using hdone)).drive terminating).2 he
  | checkpoint =>
    refine h.put (OutBody.keeps_tick _) (fun hopen => ?_) (fun _ hpending => ?_) List.not_mem_nil
    · exact ⟨(OutBody.tick_done _).symm.trans hopen, Feeds.tick⟩
    · rw [OutBody.tick, hpending]
  | grant credit =>
    have hsame : (o.stream.noteCredit credit).pending = o.stream.pending ∧
        (o.stream.noteCredit credit).source = o.stream.source ∧
        (o.stream.noteCredit credit).yielded = o.stream.yielded := by
      unfold OutBody.noteCredit
      dsimp only
      split <;> exact ⟨rfl, rfl, rfl⟩
    refine h.put (OutBody.keeps_noteCredit _ _) (fun hopen => ?_) (fun _ _ => hsame.2.2)
      List.not_mem_nil
    exact ⟨(OutBody.noteCredit_done _ _).symm.trans hopen,
      fun hf => hf.same hsame.1 hsame.2.1 hsame.2.2⟩
  | cancel reason notifyHost =>
    obtain ⟨hdone, hyielded, hclean⟩ := cancel_over o.stream reason notifyHost
    refine h.put (OutBody.keeps_cancel _ _ _) (fun hopen => ?_) (fun _ _ => hyielded) hclean
    rw [hdone] at hopen
    cases hopen
  | close message =>
    obtain ⟨hdone, hyielded⟩ := close_over o.stream message
    refine h.put (OutBody.keeps_close _ _) (fun hopen => ?_) (fun _ _ => hyielded)
      (close_clean o.stream message)
    rw [hdone] at hopen
    cases hopen

theorem delivers_new {src : List PullStart} {ys : List Yield} (h : Follows src ys)
    (sends : List Bool) : Delivers (ys.flatMap Yield.bytes) (.new src sends) where
  sound := ⟨[], [], rfl, fun d hd => absurd hd List.not_mem_nil, .inl rfl, Nat.le_refl _,
    fun _ _ => rfl, List.prefix_refl _, fun h => by cases h⟩
  feeds _ _ := feeds_new h sends
  complete he := absurd he List.not_mem_nil

/-- In every run a stream that came to a clean end has sent the bytes of each chunk as it was
taken. -/
theorem host_reads {it : AsyncIterable} {src : List PullStart} (h : Follows src it.yields)
    (sends : List Bool) (ops : List OutboundOp)
    (he : .ended none ∈ (exec Outbound.step (.new src sends) ops).frames) :
    received (exec Outbound.step (.new src sends) ops).frames = hostRead it := by
  have hrun : Delivers (hostRead it) (exec Outbound.step (.new src sends) ops) :=
    exec_invariant delivers_step (delivers_new h sends) ops
  rw [(over_of_clean hrun.sound he).2.2, hrun.complete he]

/-! ### Guest and host -/

/-- The host reads each chunk as it is taken, whatever the timing; a guest gets the same bytes, or
their text, of the iterables without strings whose arrays are left alone, and of empty ones. -/
theorem drain_iff (it : AsyncIterable) :
    (∀ src sends ops, Follows src it.yields →
        .ended none ∈ (exec Outbound.step (.new src sends) ops).frames →
        received (exec Outbound.step (.new src sends) ops).frames = hostRead it) ∧
      (bytes it = some (hostRead it) ∧ arrayBuffer it = some (hostRead it) ∧
          text it = some (WebTypes.utf8Decode (hostRead it)) ↔ Plain it) := by
  refine ⟨fun src sends ops h he => host_reads h sends ops he, ?_⟩
  rw [← drainStream_iff]
  constructor
  · exact fun h => h.1
  · intro h
    exact ⟨h, h, by rw [text, h]; rfl⟩

/-- An iterable that yields `'a'`: the host reads a byte, and the drain throws.  An iterable that
yields one array twice, with 1 and then 2 in it: the host reads both, and a guest gets 2 twice. -/
theorem drain_not_hostRead :
    bytes ⟨[⟨.text "a", fun _ => none⟩], fun _ => none⟩ ≠
        some (hostRead ⟨[⟨.text "a", fun _ => none⟩], fun _ => none⟩) ∧
      bytes ⟨[⟨.bytes 0, fun _ => some [1]⟩, ⟨.bytes 0, fun _ => some [2]⟩], fun _ => some [2]⟩ ≠
        some (hostRead ⟨[⟨.bytes 0, fun _ => some [1]⟩, ⟨.bytes 0, fun _ => some [2]⟩],
          fun _ => some [2]⟩) := by
  decide

end BodyDrain

end Iso4
