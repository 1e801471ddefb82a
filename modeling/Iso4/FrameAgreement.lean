/-
Both readers give the frames of the bytes, whatever the chunks.

What the host has delivered and what it still holds are, together, the bytes that were
pushed.  The reads are answered in the order they were asked for: the first ones with
the frames of those bytes, the others with an error once the reader is closed, by its
owner or by a bad length.

* `ReaderWorld.Reading`, `ReaderWorld.step_reading` — the invariant;
* `readFrames_eq` — the runtime, over any partial reads;
* `framing_agreement` — both.
-/
import Iso4.Framing

namespace Iso4

open Wire

namespace Framing

/-! ### The frames of some bytes -/

/-- The bytes of a frame. -/
def Frame.bytes (f : Frame) : List UInt8 := u32be (f.payload.length + 1) ++ f.messageType :: f.payload

def Frame.Fits (max : Nat) (f : Frame) : Prop := f.payload.length + 1 ≤ max

theorem parseFrame_bytes {max : Nat} {f : Frame} (h : f.Fits max) (hmax : max < 2 ^ 32)
    (rest : List UInt8) : parseFrame max (f.bytes ++ rest) = .frame f rest := by
  have hfits : f.payload.length + 1 < 2 ^ 32 := Nat.lt_of_le_of_lt h hmax
  have hlength : ofU32be (UInt8.ofNat ((f.payload.length + 1) / 16777216))
      (UInt8.ofNat ((f.payload.length + 1) / 65536)) (UInt8.ofNat ((f.payload.length + 1) / 256))
      (UInt8.ofNat (f.payload.length + 1)) = f.payload.length + 1 := ofU32be_u32be hfits
  show (if ofU32be _ _ _ _ = 0 then Front.bad zeroLength else _) = _
  rw [hlength, if_neg (Nat.succ_ne_zero _), if_neg (Nat.not_lt.mpr h), if_neg (by simp)]
  simp

theorem parseFrame_ok {max : Nat} {bytes rest : List UInt8} {f : Frame}
    (h : parseFrame max bytes = .frame f rest) : bytes = f.bytes ++ rest ∧ f.Fits max := by
  unfold parseFrame at h
  split at h
  · next a b c d body =>
    split at h
    · cases h
    · next hzero =>
      split at h
      · cases h
      · next hmax =>
        split at h
        · cases h
        · next hlen =>
          cases h
          obtain ⟨n, hn⟩ := Nat.exists_eq_succ_of_ne_zero hzero
          cases body with
          | nil =>
            rw [hn] at hlen
            exact absurd (Nat.succ_pos n) hlen
          | cons t body =>
            have hsize : ((t :: body).take (ofU32be a b c d)).length = ofU32be a b c d :=
              List.length_take_of_le (Nat.not_lt.mp hlen)
            have hpayload : (((t :: body).take (ofU32be a b c d)).drop 1).length + 1 =
                ofU32be a b c d := by
              rw [List.length_drop, hsize]
              omega
            refine ⟨?_, Nat.le_trans (Nat.le_of_eq hpayload) (Nat.not_lt.mp hmax)⟩
            rw [Frame.bytes, hpayload, u32be_ofU32be, hn]
            simp
  · cases h

theorem parseFrames_more {max : Nat} {bytes : List UInt8} (h : parseFrame max bytes = .more) :
    parseFrames max bytes = ([], none) := by
  unfold parseFrames
  split <;> simp_all

theorem parseFrames_bad {max : Nat} {bytes : List UInt8} {message : String}
    (h : parseFrame max bytes = .bad message) : parseFrames max bytes = ([], some message) := by
  unfold parseFrames
  split <;> simp_all

theorem parseFrames_frame {max : Nat} {bytes rest : List UInt8} {f : Frame}
    (h : parseFrame max bytes = .frame f rest) :
    parseFrames max bytes = (f :: (parseFrames max rest).1, (parseFrames max rest).2) := by
  rw [parseFrames]
  split <;> simp_all

/-- Frames that were taken off the front. -/
theorem parseFrames_append {max : Nat} {fs : List Frame} (hfits : ∀ f ∈ fs, f.Fits max)
    (hmax : max < 2 ^ 32) (rest : List UInt8) :
    parseFrames max (fs.flatMap Frame.bytes ++ rest) =
      (fs ++ (parseFrames max rest).1, (parseFrames max rest).2) := by
  induction fs with
  | nil => rfl
  | cons f fs ih =>
    have hfront := parseFrame_bytes (hfits f List.mem_cons_self) hmax
      (fs.flatMap Frame.bytes ++ rest)
    rw [List.flatMap_cons, List.append_assoc, parseFrames_frame hfront,
      ih fun g hg => hfits g (List.mem_cons_of_mem _ hg)]
    rfl

/-! ### Chunks -/

/-- The chunks hold the bytes, none of them empty. -/
structure Holds (chunks : List (List UInt8)) (bytes : List UInt8) : Prop where
  flat : chunks.flatten = bytes
  full : ∀ c ∈ chunks, c ≠ []

theorem Holds.drop_first {first : List UInt8} {chunks : List (List UInt8)} {bytes : List UInt8}
    (h : Holds (first :: chunks) bytes) : Holds chunks (bytes.drop first.length) := by
  refine ⟨?_, fun c hc => h.full c (List.mem_cons_of_mem _ hc)⟩
  rw [← h.flat, List.flatten_cons, List.drop_left]

theorem Holds.cut_first {first : List UInt8} {chunks : List (List UInt8)} {bytes : List UInt8} {n : Nat}
    (h : Holds (first :: chunks) bytes) (hn : n < first.length) :
    Holds (first.drop n :: chunks) (bytes.drop n) := by
  constructor
  · rw [← h.flat, List.flatten_cons, List.flatten_cons, List.drop_append_of_le_length (Nat.le_of_lt hn)]
  · intro c hc
    rcases List.mem_cons.mp hc with rfl | hc
    · exact fun hnil => Nat.not_le.mpr hn (List.drop_eq_nil_iff.mp hnil)
    · exact h.full c (List.mem_cons_of_mem _ hc)

theorem scanLength_of_four (value : Nat) (bs : List UInt8) : scanLength value 4 bs = (value, 4) := by
  cases bs <;> rfl

theorem scanLength_append (value seen : Nat) (as bs : List UInt8) :
    scanLength value seen (as ++ bs) =
      scanLength (scanLength value seen as).1 (scanLength value seen as).2 bs := by
  induction as generalizing value seen with
  | nil => rfl
  | cons a as ih =>
    by_cases hseen : seen < 4
    · simp only [List.cons_append, scanLength, if_pos hseen]
      exact ih _ _
    · cases bs <;> simp [List.cons_append, scanLength, hseen]

/-- The loops see the bytes, not the chunks. -/
theorem scanChunks_eq (chunks : List (List UInt8)) (value seen : Nat) :
    scanChunks value seen chunks = (scanLength value seen chunks.flatten).1 := by
  induction chunks generalizing value seen with
  | nil => rfl
  | cons c cs ih =>
    rw [scanChunks, List.flatten_cons, scanLength_append]
    split
    · next h => rw [h, scanLength_of_four]
    · exact ih _ _

theorem peekLength_eq {chunks : List (List UInt8)} {a b c d : UInt8} {body : List UInt8}
    (h : chunks.flatten = a :: b :: c :: d :: body) : peekLength chunks = ofU32be a b c d := by
  have hscan : scanChunks 0 0 chunks = ofU32be a b c d := by
    have hcons : ∀ (value seen : Nat) (b : UInt8) (bs : List UInt8), seen < 4 →
        scanLength value seen (b :: bs) = scanLength (value * 256 + b.toNat) (seen + 1) bs :=
      fun _ _ _ _ hlt => if_pos hlt
    rw [scanChunks_eq, h, hcons _ _ _ _ (by omega), hcons _ _ _ _ (by omega), hcons _ _ _ _ (by omega),
      hcons _ _ _ _ (by omega), scanLength_of_four]
    unfold ofU32be
    omega
  unfold peekLength
  split
  · next a' b' c' d' tail rest =>
    rw [List.flatten_cons] at h
    cases h
    rfl
  · exact hscan

theorem gather_eq {chunks : List (List UInt8)} {bytes : List UInt8} {n : Nat} (h : Holds chunks bytes)
    (hn : n ≤ bytes.length) :
    ∃ rest, gather n chunks = some (bytes.take n, rest) ∧ Holds rest (bytes.drop n) := by
  induction chunks generalizing bytes n with
  | nil =>
    have hbytes : bytes = [] := h.flat.symm
    subst hbytes
    obtain rfl : n = 0 := Nat.le_zero.mp hn
    exact ⟨[], rfl, h⟩
  | cons c cs ih =>
    cases n with
    | zero => exact ⟨c :: cs, rfl, h⟩
    | succ n =>
      have hflat : bytes = c ++ cs.flatten := h.flat.symm
      by_cases hle : c.length ≤ n + 1
      · obtain ⟨rest, hgather, hrest⟩ := ih h.drop_first (n := n + 1 - c.length)
          (by rw [List.length_drop]; omega)
        refine ⟨rest, ?_, ?_⟩
        · rw [gather, if_pos hle, hgather, hflat, List.drop_left]
          simp only [Option.map_some, Option.some.injEq, Prod.mk.injEq, and_true]
          rw [List.take_append, List.take_of_length_le hle]
        · rw [List.drop_drop, Nat.add_sub_cancel' hle] at hrest
          exact hrest
      · have hlt : n + 1 < c.length := Nat.not_le.mp hle
        refine ⟨c.drop (n + 1) :: cs, ?_, h.cut_first hlt⟩
        rw [gather, if_neg hle, hflat, List.take_append_of_le_length (Nat.le_of_lt hlt)]

theorem take_eq {chunks : List (List UInt8)} {bytes : List UInt8} {n : Nat} (h : Holds chunks bytes)
    (hn : n ≤ bytes.length) (hpos : 0 < n) :
    ∃ rest, take n chunks = some (bytes.take n, rest) ∧ Holds rest (bytes.drop n) := by
  cases chunks with
  | nil =>
    have hbytes : bytes = [] := h.flat.symm
    subst hbytes
    exact absurd hn (Nat.not_le.mpr hpos)
  | cons first rest =>
    have hflat : bytes = first ++ rest.flatten := h.flat.symm
    unfold take
    dsimp only
    split
    · next heq =>
      subst heq
      refine ⟨rest, ?_, h.drop_first⟩
      rw [hflat, List.take_left]
    · split
      · next hlt =>
        refine ⟨first.drop n :: rest, ?_, h.cut_first hlt⟩
        rw [hflat, List.take_append_of_le_length (Nat.le_of_lt hlt)]
      · exact gather_eq h hn

/-! ### One read of the host -/

theorem front_cases (bytes : List UInt8) :
    bytes.length < 4 ∨ ∃ a b c d body, bytes = a :: b :: c :: d :: body := by
  match bytes with
  | [] => exact Or.inl (by decide)
  | [_] => exact Or.inl (by simp)
  | [_, _] => exact Or.inl (by simp)
  | [_, _, _] => exact Or.inl (by simp)
  | a :: b :: c :: d :: body => exact Or.inr ⟨a, b, c, d, body, rfl⟩

theorem parseFrame_short {max : Nat} {bytes : List UInt8} (h : bytes.length < 4) :
    parseFrame max bytes = .more := by
  unfold parseFrame
  split
  · simp only [List.length_cons] at h
    omega
  · rfl

/-- A frame that is there decodes. -/
theorem decodeFrame_take {max : Nat} {a b c d : UInt8} {body : List UInt8} (hzero : ofU32be a b c d ≠ 0)
    (hmax : ¬ max < ofU32be a b c d) (hlen : ¬ body.length < ofU32be a b c d) :
    decodeFrame (a :: b :: c :: d :: body.take (ofU32be a b c d)) max =
      .ok ⟨body.headD 0, (body.take (ofU32be a b c d)).drop 1⟩ := by
  have hsize : (body.take (ofU32be a b c d)).length = ofU32be a b c d :=
    List.length_take_of_le (Nat.not_lt.mp hlen)
  obtain ⟨n, hn⟩ := Nat.exists_eq_succ_of_ne_zero hzero
  cases body with
  | nil =>
    rw [hn] at hlen
    exact absurd (Nat.succ_pos n) hlen
  | cons t body =>
    unfold decodeFrame
    dsimp only
    rw [if_neg hzero, if_neg hmax, hsize, if_neg (Nat.lt_irrefl _), if_neg (Nat.lt_irrefl _), hn]
    rfl

theorem take_front {a b c d : UInt8} {body : List UInt8} (n : Nat) :
    (a :: b :: c :: d :: body).take (4 + n) = a :: b :: c :: d :: body.take n := by
  rw [Nat.add_comm]
  rfl

theorem drop_front {a b c d : UInt8} {body : List UInt8} (n : Nat) :
    (a :: b :: c :: d :: body).drop (4 + n) = body.drop n := by
  rw [Nat.add_comm]
  rfl

section Host

variable {w : ReaderWorld} {bytes : List UInt8} {again : ReaderWorld → String → ReaderWorld}

/-- How `tryReadFrame` ends, by what stands at the front of the bytes. -/
inductive TryReads (again : ReaderWorld → String → ReaderWorld) (w : ReaderWorld) :
    Front → ReaderWorld × TryRead → Prop where
  | more : TryReads again w .more (w, .null)
  | bad (e : String) : TryReads again w (.bad e) (again w e, .thrown e)
  | frame {f : Frame} {rest : List UInt8} {chunks : List (List UInt8)} (h : Holds chunks rest) :
    TryReads again w (.frame f rest) ({ w with chunks, buffered := rest.length }, .frame f)

/-- The last branch of `tryReadFrame`. -/
theorem tryRead_frame {n : Nat} {taken : List UInt8} {chunks : List (List UInt8)} {f : Frame}
    (hpeek : peekLength w.chunks = n) (hzero : n ≠ 0) (hmax : ¬ defaultMaxFrameLength < n)
    (hready : ¬ w.buffered < 4 + n) (htake : take (4 + n) w.chunks = some (taken, chunks))
    (hdecode : decodeFrame taken defaultMaxFrameLength = .ok f) :
    w.tryReadWith again = ({ w with chunks, buffered := w.buffered - (4 + n) }, .frame f) := by
  have hfour : ¬ w.buffered < 4 := by omega
  unfold ReaderWorld.tryReadWith
  dsimp only
  rw [if_neg hfour, hpeek, if_neg hzero, if_neg hmax, if_neg hready, htake]
  dsimp only
  rw [hdecode]

/-- `tryReadFrame` does at the chunks what the front of the bytes says. -/
theorem tryRead_spec (hcount : w.buffered = bytes.length) (h : Holds w.chunks bytes) :
    TryReads again w (parseFrame defaultMaxFrameLength bytes) (w.tryReadWith again) := by
  rcases front_cases bytes with hshort | ⟨a, b, c, d, body, rfl⟩
  · have hnull : w.tryReadWith again = (w, .null) := if_pos (by omega)
    rw [parseFrame_short hshort, hnull]
    exact .more
  · have hsize : w.buffered = body.length + 4 := hcount
    have hfour : ¬ w.buffered < 4 := by omega
    have hpeek := peekLength_eq h.flat
    by_cases hlast : ofU32be a b c d ≠ 0 ∧ ¬ defaultMaxFrameLength < ofU32be a b c d ∧
        ¬ body.length < ofU32be a b c d
    · obtain ⟨hzero, hmax, hlen⟩ := hlast
      obtain ⟨rest, htake, hrest⟩ := take_eq h (n := 4 + ofU32be a b c d)
        (by rw [← hcount]; omega) (by omega)
      rw [drop_front] at hrest
      rw [take_front] at htake
      have hleft : w.buffered - (4 + ofU32be a b c d) = (body.drop (ofU32be a b c d)).length := by
        rw [List.length_drop]
        omega
      rw [tryRead_frame hpeek hzero hmax (by omega) htake (decodeFrame_take hzero hmax hlen), hleft]
      unfold parseFrame
      dsimp only
      rw [if_neg hzero, if_neg hmax, if_neg hlen]
      exact .frame hrest
    · unfold parseFrame ReaderWorld.tryReadWith
      dsimp only
      rw [if_neg hfour, hpeek]
      by_cases hzero : ofU32be a b c d = 0
      · rw [if_pos hzero, if_pos hzero]
        exact .bad _
      rw [if_neg hzero, if_neg hzero]
      by_cases hmax : defaultMaxFrameLength < ofU32be a b c d
      · rw [if_pos hmax, if_pos hmax]
        exact .bad _
      have hlen : body.length < ofU32be a b c d := by
        by_contra hlen
        exact hlast ⟨hzero, hmax, hlen⟩
      have hwait : w.buffered < 4 + ofU32be a b c d := by omega
      rw [if_neg hmax, if_neg hmax, if_pos hlen, if_pos hwait]
      exact .more

namespace ReaderWorld

/-- What stands at the front of the buffer. -/
def front (w : ReaderWorld) : Front := parseFrame defaultMaxFrameLength w.chunks.flatten

/-- The frames `D` were delivered, in the order of the reads, and then the errors `E`. -/
structure Reading (D : List Frame) (E : List String) (w : ReaderWorld) : Prop where
  full : ∀ c ∈ w.chunks, c ≠ []
  count : w.buffered = w.chunks.flatten.length
  fits : ∀ f ∈ D, f.Fits defaultMaxFrameLength
  bytes : w.pushed = D.flatMap Frame.bytes ++ w.chunks.flatten
  order : w.settled.map Prod.fst ++ w.pendingReads = List.range w.reads
  results : w.settled.map Prod.snd = D.map .ok ++ E.map .error
  failed : E ≠ [] → w.closedError ≠ none ∧ ∀ f rest, w.front ≠ .frame f rest

/-- A read waits only for bytes that are to come. -/
def Waiting (w : ReaderWorld) : Prop := w.pendingReads ≠ [] → w.front = .more ∧ w.closedError = none

variable {D : List Frame} {E : List String} {e : String} {f : Frame} {rest : List UInt8}

theorem Reading.new : Reading [] [] .new where
  full := fun _ hc => absurd hc List.not_mem_nil
  count := rfl
  fits := fun _ hf => absurd hf List.not_mem_nil
  bytes := rfl
  order := rfl
  results := rfl
  failed := fun hne => absurd rfl hne

/-- No read has failed while there is a frame to give. -/
theorem Reading.noErrors (h : Reading D E w) (hfront : w.front = .frame f rest) : E = [] := by
  by_contra hne
  exact (h.failed hne).2 f rest hfront

theorem Reading.tryReads (h : Reading D E w) : TryReads again w w.front (w.tryReadWith again) :=
  tryRead_spec h.count ⟨rfl, h.full⟩

/-- The frame at the front goes to the read `id`. -/
theorem Reading.deliver (h : Reading D E w) (hfront : w.front = .frame f rest)
    {chunks : List (List UInt8)} (hrest : Holds chunks rest) {id reads : Nat} {pending : List Nat}
    (hids : w.settled.map Prod.fst ++ id :: pending = List.range reads) :
    Reading (D ++ [f]) []
      { w with
        chunks
        buffered := rest.length
        pendingReads := pending
        reads
        settled := w.settled ++ [(id, .ok f)] } where
  full := hrest.full
  count := congrArg List.length hrest.flat.symm
  fits := by
    intro g hg
    rcases List.mem_append.mp hg with hg | hg
    · exact h.fits g hg
    · rw [List.mem_singleton.mp hg]
      exact (parseFrame_ok hfront).2
  bytes := by
    rw [h.bytes, (parseFrame_ok hfront).1, hrest.flat]
    simp
  order := by
    rw [List.map_append, List.append_assoc]
    exact hids
  results := by
    rw [List.map_append, h.results, h.noErrors hfront]
    simp
  failed := fun hne => absurd rfl hne

/-- Reads that the reader fails. -/
theorem Reading.fail (h : Reading D E w) (hfront : ∀ f rest, w.front ≠ .frame f rest)
    {closed : Option String} (hclosed : closed ≠ none) {ids : List Nat} {reads : Nat}
    (hids : w.settled.map Prod.fst ++ ids = List.range reads) :
    Reading D (E ++ ids.map fun _ => e)
      { w with
        pendingReads := []
        reads
        closedError := closed
        settled := w.settled ++ ids.map fun id => (id, .error e) } where
  full := h.full
  count := h.count
  fits := h.fits
  bytes := h.bytes
  order := by
    rw [← hids]
    simp [Function.comp_def]
  results := by
    rw [List.map_append, h.results]
    simp [Function.comp_def]
  failed := fun _ => ⟨hclosed, hfront⟩

theorem Waiting.noPending (h : w.Waiting) (hclosed : w.closedError ≠ none) : w.pendingReads = [] := by
  by_contra hne
  exact hclosed (h hne).2

theorem Waiting.noFrame (h : w.Waiting) (hne : w.pendingReads ≠ []) (f : Frame) (rest : List UInt8) :
    w.front ≠ .frame f rest := by
  rw [(h hne).1]
  exact Front.noConfusion

/-! ### What one call does -/

/-- Nothing is drained when no pending read finds a frame. -/
theorem Reading.drain (h : Reading D E w)
    (hfront : w.pendingReads ≠ [] → ∀ f rest, w.front ≠ .frame f rest) :
    (flushWith (fun w _ => w) w w.pendingReads).1 = w := by
  cases hids : w.pendingReads with
  | nil => rfl
  | cons id ids =>
    have htry : TryReads (fun w _ => w) w w.front (w.tryReadWith fun w _ => w) := h.tryReads
    have hno := hfront (by rw [hids]; exact List.cons_ne_nil _ _)
    unfold flushWith
    generalize w.tryReadWith (fun w _ => w) = r at htry
    generalize w.front = front at htry hno
    cases htry with
    | more => rfl
    | bad e => rfl
    | frame hrest => exact absurd rfl (hno _ _)

/-- `close` fails what waits. -/
theorem Reading.close (h : Reading D E w) (hopen : w.closedError = none)
    (hfront : w.pendingReads ≠ [] → ∀ f rest, w.front ≠ .frame f rest) :
    ∃ E', Reading D E' (w.close e) ∧ (w.close e).Waiting ∧ (w.close e).closedError ≠ none ∧
      (w.close e).front = w.front ∧ (w.close e).reads = w.reads := by
  have hE : E = [] := by
    by_contra hne
    exact (h.failed hne).1 hopen
  have hclosing : Reading D E { w with closedError := some e } :=
    { h with failed := fun hne => absurd hE hne }
  have hdrain := hclosing.drain hfront
  have heq : w.close e = rejectPending { w with closedError := some e } e := by
    unfold ReaderWorld.close
    rw [if_neg (by rw [hopen]; exact Bool.false_ne_true)]
    exact congrArg (rejectPending · e) hdrain
  rw [heq]
  by_cases hpending : w.pendingReads = []
  · refine ⟨E, ?_, fun hne => absurd rfl hne, Option.some_ne_none e, rfl, rfl⟩
    unfold rejectPending
    simp only [hpending, List.map_nil, List.append_nil]
    exact { hclosing with order := by rw [← h.order, hpending] }
  · exact ⟨_, h.fail (hfront hpending) (Option.some_ne_none e) h.order, fun hne => absurd rfl hne,
      Option.some_ne_none e, rfl, rfl⟩

/-- `flushPendingReads` gives the frames there are to the reads that wait; at a bad length it
closes the reader. -/
theorem Reading.flush {ids : List Nat} (h : Reading D E w) (hopen : w.closedError = none)
    (hids : w.pendingReads = ids) :
    ∃ D' w', Reading D' [] w' ∧ w'.closedError = none ∧
      (flushWith ReaderWorld.close w ids = (w', none) ∧ w'.Waiting ∨
        ∃ e, w'.front = .bad e ∧ flushWith ReaderWorld.close w ids = (w'.close e, some e)) := by
  have hE : E = [] := by
    by_contra hne
    exact (h.failed hne).1 hopen
  subst hE
  induction ids generalizing D w with
  | nil => exact ⟨D, w, h, hopen, Or.inl ⟨rfl, fun hne => absurd hids hne⟩⟩
  | cons id ids ih =>
    have htry : TryReads ReaderWorld.close w w.front (w.tryReadWith ReaderWorld.close) := h.tryReads
    unfold flushWith
    generalize hr : w.tryReadWith ReaderWorld.close = r at htry
    generalize hfront : w.front = front at htry
    cases htry with
    | more => exact ⟨D, w, h, hopen, Or.inl ⟨rfl, fun _ => ⟨hfront, hopen⟩⟩⟩
    | bad e => exact ⟨D, w, h, hopen, Or.inr ⟨e, hfront, rfl⟩⟩
    | frame hrest =>
      have horder : w.settled.map Prod.fst ++ id :: ids = List.range w.reads := by rw [← h.order, hids]
      have hdeliver := h.deliver hfront hrest horder
      exact ih hopen rfl hdeliver

theorem Reading.append (h : Reading D E w) (hopen : w.closedError = none) (chunk : List UInt8) :
    Reading D E (w.append chunk) ∧ (w.append chunk).closedError = none := by
  have hE : E = [] := by
    by_contra hne
    exact (h.failed hne).1 hopen
  unfold ReaderWorld.append
  split
  · next hpos =>
    refine ⟨⟨?_, ?_, h.fits, ?_, h.order, h.results, fun hne => absurd hE hne⟩, hopen⟩
    · intro c hc
      rcases List.mem_append.mp hc with hc | hc
      · exact h.full c hc
      · rw [List.mem_singleton.mp hc]
        exact List.ne_nil_of_length_pos hpos
    · show w.buffered + chunk.length = (w.chunks ++ [chunk]).flatten.length
      rw [h.count]
      simp
    · show w.pushed ++ chunk = D.flatMap Frame.bytes ++ (w.chunks ++ [chunk]).flatten
      rw [h.bytes]
      simp
  · exact ⟨h, hopen⟩

theorem Reading.push (h : Reading D E w) (hwait : w.Waiting) (chunk : List UInt8) :
    ∃ D' E', Reading D' E' (w.push chunk) ∧ (w.push chunk).Waiting := by
  unfold ReaderWorld.push
  by_cases hopen : w.closedError = none
  · rw [if_neg (by rw [hopen]; exact Bool.false_ne_true)]
    obtain ⟨happend, hstill⟩ := h.append hopen chunk
    obtain ⟨D', w', h', hopen', ⟨heq, hwait'⟩ | ⟨e, hbad, heq⟩⟩ := happend.flush hstill rfl
    · unfold flushPendingReads
      rw [heq]
      exact ⟨D', [], h', hwait'⟩
    · obtain ⟨E', hclose, hwait', hclosed, _⟩ := h'.close (e := e) hopen' fun _ f rest hf => by
        rw [hbad] at hf
        cases hf
      unfold flushPendingReads
      rw [heq]
      -- The drain closed the reader; the `close` of `push` finds it closed.
      have hagain : (w'.close e).close e = w'.close e :=
        if_pos (Option.isSome_iff_ne_none.mpr hclosed)
      refine ⟨D', E', ?_⟩
      dsimp only
      rw [hagain]
      exact ⟨hclose, hwait'⟩
  · rw [if_pos (Option.isSome_iff_ne_none.mpr hopen)]
    exact ⟨D, E, h, hwait⟩

/-- A read that fails at once. -/
theorem Reading.failNow (h : Reading D E w) (hnone : w.pendingReads = [])
    (hfront : ∀ f rest, w.front ≠ .frame f rest) {closed : Option String} (hclosed : closed ≠ none) :
    Reading D (E ++ [e])
      { w with
        reads := w.reads + 1
        closedError := closed
        settled := w.settled ++ [(w.reads, .error e)] } := by
  have horder : w.settled.map Prod.fst ++ [w.reads] = List.range (w.reads + 1) := by
    have hread := h.order
    rw [hnone, List.append_nil] at hread
    rw [hread, List.range_succ]
  have hfail : Reading D (E ++ [w.reads].map fun _ => e) _ := h.fail hfront hclosed horder
  rw [hnone]
  exact hfail

theorem Reading.readFrame (h : Reading D E w) (hwait : w.Waiting) :
    ∃ D' E', Reading D' E' w.readFrame ∧ w.readFrame.Waiting := by
  have htry : TryReads ReaderWorld.close { w with reads := w.reads + 1 } w.front _ :=
    tryRead_spec h.count ⟨rfl, h.full⟩
  unfold ReaderWorld.readFrame tryReadFrame
  generalize hr : { w with reads := w.reads + 1 }.tryReadWith ReaderWorld.close = r at htry
  change TryReads _ _ w.front r at htry
  generalize hfront : w.front = front at htry
  cases htry with
  | more =>
    have hno : ∀ f rest, w.front ≠ .frame f rest := by
      intro f rest hf
      rw [hfront] at hf
      cases hf
    cases hclosed : w.closedError with
    | some e =>
      have hne : w.closedError ≠ none := by
        rw [hclosed]
        exact Option.some_ne_none e
      have hnone := hwait.noPending hne
      have hfail := h.failNow (e := e) hnone hno hne
      refine ⟨D, E ++ [e], ?_⟩
      dsimp only
      rw [hclosed]
      exact ⟨hfail, fun hpending => absurd hnone hpending⟩
    | none =>
      refine ⟨D, E, ?_⟩
      dsimp only
      rw [hclosed]
      dsimp only
      refine ⟨⟨h.full, h.count, h.fits, h.bytes, ?_, h.results, fun hne => absurd hclosed (h.failed hne).1⟩,
        fun _ => ⟨hfront, rfl⟩⟩
      show w.settled.map Prod.fst ++ (w.pendingReads ++ [w.reads]) = List.range (w.reads + 1)
      rw [← List.append_assoc, h.order, List.range_succ]
  | bad e =>
    have hno : ∀ f rest, w.front ≠ .frame f rest := by
      intro f rest hf
      rw [hfront] at hf
      cases hf
    have hnone : w.pendingReads = [] := by
      by_contra hne
      rw [(hwait hne).1] at hfront
      cases hfront
    obtain ⟨closed, hclosed, heq⟩ : ∃ closed, closed ≠ none ∧
        { w with reads := w.reads + 1 }.close e =
          { w with reads := w.reads + 1, closedError := closed } := by
      by_cases hopen : w.closedError = none
      · refine ⟨some e, Option.some_ne_none e, ?_⟩
        unfold ReaderWorld.close
        rw [if_neg (by rw [hopen]; exact Bool.false_ne_true)]
        unfold rejectPending
        simp [hnone, flushWith]
      · exact ⟨w.closedError, hopen, if_pos (Option.isSome_iff_ne_none.mpr hopen)⟩
    refine ⟨D, E ++ [e], ?_⟩
    dsimp only
    rw [heq]
    exact ⟨h.failNow hnone hno hclosed, fun hpending => absurd hnone hpending⟩
  | @frame f rest chunks hrest =>
    have hnone : w.pendingReads = [] := by
      by_contra hne
      rw [(hwait hne).1] at hfront
      cases hfront
    have horder : w.settled.map Prod.fst ++ w.reads :: [] = List.range (w.reads + 1) := by
      have hread := h.order
      rw [hnone, List.append_nil] at hread
      rw [hread, List.range_succ]
    have hdeliver := h.deliver hfront hrest horder
    refine ⟨D ++ [f], [], ?_, fun hpending => absurd hnone hpending⟩
    dsimp only [settle]
    rw [hnone]
    exact hdeliver

/-- The step lemma. -/
theorem step_reading (op : ReaderOp)
    (h : ∃ D E, Reading D E w ∧ w.Waiting) : ∃ D E, Reading D E (w.step op) ∧ (w.step op).Waiting := by
  obtain ⟨D, E, h, hwait⟩ := h
  cases op with
  | push chunk => exact h.push hwait chunk
  | readFrame => exact h.readFrame hwait
  | close error =>
    by_cases hopen : w.closedError = none
    · obtain ⟨E', hclose, hwait', _⟩ := h.close (e := error) hopen hwait.noFrame
      exact ⟨D, E', hclose, hwait'⟩
    · have hsame : w.step (.close error) = w := if_pos (Option.isSome_iff_ne_none.mpr hopen)
      rw [hsame]
      exact ⟨D, E, h, hwait⟩

end ReaderWorld

end Host

/-! ### The runtime -/

/-- Partial reads do not show. -/
theorem readUntilEof_eq (want : Nat) (bytes : List UInt8) (plan : List PartialRead) :
    ∃ plan', readUntilEof want bytes plan = (bytes.take want, ⟨bytes.drop want, plan'⟩) := by
  induction plan generalizing want bytes with
  | nil => exact ⟨[], rfl⟩
  | cons r plan ih =>
    cases r with
    | interrupted =>
      unfold readUntilEof
      split
      · next hzero =>
        subst hzero
        exact ⟨_, rfl⟩
      · exact ih want bytes
    | upTo k =>
      unfold readUntilEof
      split
      · next hzero =>
        subst hzero
        exact ⟨_, rfl⟩
      · split
        · next hnil =>
          obtain rfl := List.length_eq_zero_iff.mp hnil
          exact ⟨plan, by simp⟩
        · obtain ⟨plan', heq⟩ := ih (want - min want (k + 1)) (bytes.drop (min want (k + 1)))
          have hsum : min want (k + 1) + (want - min want (k + 1)) = want := by omega
          have htake := List.take_add (l := bytes) (i := min want (k + 1)) (j := want - min want (k + 1))
          rw [hsum] at htake
          refine ⟨plan', ?_⟩
          dsimp only
          rw [heq, htake, List.drop_drop, hsum]

theorem readFrame_frame {max : Nat} {bytes rest : List UInt8} {f : Frame} (plan : List PartialRead)
    (h : parseFrame max bytes = .frame f rest) :
    ∃ plan', readFrameWithLimit max ⟨bytes, plan⟩ = .ok (f, ⟨rest, plan'⟩) := by
  obtain ⟨plan₁, hstart⟩ := readUntilEof_eq 4 bytes plan
  rcases front_cases bytes with hshort | ⟨a, b, c, d, body, rfl⟩
  · rw [parseFrame_short hshort] at h
    cases h
  · unfold parseFrame at h
    dsimp only at h
    obtain ⟨plan₂, hbody⟩ := readUntilEof_eq (ofU32be a b c d) body plan₁
    split at h
    · cases h
    · next hzero =>
      split at h
      · cases h
      · next hmax =>
        split at h
        · cases h
        · next hlen =>
          cases h
          have hsize : ¬ (body.take (ofU32be a b c d)).length < ofU32be a b c d := by
            rw [List.length_take_of_le (Nat.not_lt.mp hlen)]
            exact Nat.lt_irrefl _
          have hhead : (body.take (ofU32be a b c d)).headD 0 = body.headD 0 := by
            cases body with
            | nil => simp
            | cons t body =>
              obtain ⟨n, hn⟩ := Nat.exists_eq_succ_of_ne_zero hzero
              rw [hn]
              rfl
          refine ⟨plan₂, ?_⟩
          unfold readFrameWithLimit
          rw [hstart]
          dsimp only [List.take, List.drop]
          rw [if_neg hzero, if_neg hmax, hbody]
          dsimp only
          rw [if_neg hsize, hhead]

theorem readFrame_error {max : Nat} {bytes : List UInt8} (plan : List PartialRead)
    (h : ∀ f rest, parseFrame max bytes ≠ .frame f rest) :
    ∃ e, readFrameWithLimit max ⟨bytes, plan⟩ = .error e := by
  obtain ⟨plan₁, hstart⟩ := readUntilEof_eq 4 bytes plan
  unfold readFrameWithLimit
  rw [hstart]
  rcases bytes with _ | ⟨a, _ | ⟨b, _ | ⟨c, _ | ⟨d, body⟩⟩⟩⟩
  · exact ⟨_, rfl⟩
  · exact ⟨_, rfl⟩
  · exact ⟨_, rfl⟩
  · exact ⟨_, rfl⟩
  · unfold parseFrame at h
    dsimp only [List.take, List.drop] at h ⊢
    obtain ⟨plan₂, hbody⟩ := readUntilEof_eq (ofU32be a b c d) body plan₁
    split
    · exact ⟨_, rfl⟩
    · next hzero =>
      split
      · exact ⟨_, rfl⟩
      · next hmax =>
        rw [if_neg hzero, if_neg hmax] at h
        rw [hbody]
        have hlen : body.length < ofU32be a b c d := by
          by_contra hlen
          rw [if_neg hlen] at h
          exact h _ _ rfl
        have hshort : (body.take (ofU32be a b c d)).length < ofU32be a b c d := by
          rw [List.length_take]
          omega
        exact ⟨_, if_pos hshort⟩

theorem readFrames_eq (max calls : Nat) (bytes : List UInt8) (plan : List PartialRead) :
    readFrames max calls ⟨bytes, plan⟩ = (parseFrames max bytes).1.take calls := by
  induction calls generalizing bytes plan with
  | zero => rfl
  | succ calls ih =>
    unfold readFrames
    cases hfront : parseFrame max bytes with
    | more =>
      obtain ⟨e, he⟩ := readFrame_error plan fun f rest hf => by
        rw [hfront] at hf
        cases hf
      rw [he, parseFrames_more hfront]
      rfl
    | bad message =>
      obtain ⟨e, he⟩ := readFrame_error plan fun f rest hf => by
        rw [hfront] at hf
        cases hf
      rw [he, parseFrames_bad hfront]
      rfl
    | frame f rest =>
      obtain ⟨plan', hok⟩ := readFrame_frame plan hfront
      rw [hok, parseFrames_frame hfront]
      exact congrArg (f :: ·) (ih rest plan')

/-! ### Both readers -/

section Agreement

variable {w : ReaderWorld} {D : List Frame} {E : List String}

theorem defaultMax_lt : defaultMaxFrameLength < 2 ^ 32 := by decide +kernel

/-- What the reads got, against the frames of the bytes pushed. -/
theorem ReaderWorld.Reading.parsed (h : w.Reading D E) :
    parseFrames defaultMaxFrameLength w.pushed =
      (D ++ (parseFrames defaultMaxFrameLength w.chunks.flatten).1,
        (parseFrames defaultMaxFrameLength w.chunks.flatten).2) := by
  rw [h.bytes]
  exact parseFrames_append h.fits defaultMax_lt _

theorem ReaderWorld.Reading.asked (h : w.Reading D E) :
    D.length + E.length + w.pendingReads.length = w.reads := by
  have horder := congrArg List.length h.order
  have hresults := congrArg List.length h.results
  simp only [List.length_append, List.length_map, List.length_range] at horder hresults
  omega

theorem ReaderWorld.Reading.delivered (h : w.Reading D E) (hwait : w.Waiting) :
    (parseFrames defaultMaxFrameLength w.pushed).1.take w.reads = D := by
  have hasked := h.asked
  rw [h.parsed]
  by_cases hall : D.length = w.reads
  · exact List.take_left' hall
  · have hnone : (parseFrames defaultMaxFrameLength w.chunks.flatten).1 = [] := by
      cases hfront : parseFrame defaultMaxFrameLength w.chunks.flatten with
      | more => rw [parseFrames_more hfront]
      | bad message => rw [parseFrames_bad hfront]
      | frame f rest =>
        by_cases hpending : w.pendingReads = []
        · have hne : E ≠ [] := by
            rintro rfl
            rw [hpending] at hasked
            exact hall hasked
          exact absurd hfront ((h.failed hne).2 f rest)
        · exact absurd hfront (hwait.noFrame hpending f rest)
    rw [hnone, List.append_nil]
    have hle : D.length ≤ w.reads := by omega
    exact List.take_of_length_le hle

/-- The host: for all chunks and all calls, the reads get the frames of the bytes that were
pushed before the reader was closed, in the order they were asked for, and those that get
none fail once it is closed.  The runtime: for all partial reads, the same frames. -/
theorem framing_agreement (ops : List ReaderOp) :
    (∃ errors : List String,
      (Execution.exec ReaderWorld.step .new ops).settled.map Prod.snd =
        ((parseFrames defaultMaxFrameLength (Execution.exec ReaderWorld.step .new ops).pushed).1.take
          (Execution.exec ReaderWorld.step .new ops).reads).map .ok ++ errors.map .error ∧
      (errors ≠ [] → (Execution.exec ReaderWorld.step .new ops).closedError ≠ none)) ∧
    (Execution.exec ReaderWorld.step .new ops).settled.map Prod.fst ++
        (Execution.exec ReaderWorld.step .new ops).pendingReads =
      List.range (Execution.exec ReaderWorld.step .new ops).reads ∧
    ((Execution.exec ReaderWorld.step .new ops).pendingReads ≠ [] →
      (Execution.exec ReaderWorld.step .new ops).closedError = none ∧
      (parseFrames defaultMaxFrameLength (Execution.exec ReaderWorld.step .new ops).pushed).2 = none) ∧
    (Execution.exec ReaderWorld.step .new ops).buffered =
      ((Execution.exec ReaderWorld.step .new ops).chunks.map List.length).sum ∧
    ∀ (bytes : List UInt8) (plan : List PartialRead) (calls : Nat),
      readFrames defaultMaxFrameLength calls ⟨bytes, plan⟩ =
        (parseFrames defaultMaxFrameLength bytes).1.take calls := by
  obtain ⟨D, E, h, hwait⟩ := Execution.exec_invariant
    (I := fun w : ReaderWorld => ∃ D E, w.Reading D E ∧ w.Waiting) (fun w op => ReaderWorld.step_reading op)
    ⟨[], [], .new, fun hne => absurd rfl hne⟩ ops
  generalize Execution.exec ReaderWorld.step .new ops = w at h hwait
  refine ⟨⟨E, ?_, fun hne => (h.failed hne).1⟩, h.order, fun hne => ⟨(hwait hne).2, ?_⟩, ?_,
    fun bytes plan calls => readFrames_eq _ calls bytes plan⟩
  · rw [h.results, h.delivered hwait]
  · rw [h.parsed, parseFrames_more (hwait hne).1]
  · rw [h.count, List.length_flatten]

end Agreement

end Framing

end Iso4
