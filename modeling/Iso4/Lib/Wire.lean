/-
Bytes on the wire: big-endian integers, writers and readers.

A writer gives the bytes of a value, or nothing when a number in it does not fit
its field.  A reader takes bytes off the front of what is left.  `Reads k w r res`
says that the writer `w` gives at least `k` bytes and that the reader `r`, put in
front of them, ends with `res` whatever follows.

* `Reads.bind`, `Reads.bind_error` — fields one after the other;
* `Reads.times` — a list, entry by entry;
* `Reads.bind_all`, `Reads.last` — down to the end of the bytes.
-/
import Mathlib.Data.List.Basic
import Mathlib.Algebra.Ring.Nat
import Mathlib.Tactic.Common

namespace Wire

/-- `u32::to_be_bytes`; what does not fit 32 bits is cut off. -/
def u32be (n : Nat) : List UInt8 :=
  [UInt8.ofNat (n / 16777216), UInt8.ofNat (n / 65536), UInt8.ofNat (n / 256), UInt8.ofNat n]

@[simp] theorem u32be_length (n : Nat) : (u32be n).length = 4 := rfl

/-- A cast to 32 bits before encoding changes nothing. -/
@[simp] theorem u32be_mod (n : Nat) : u32be (n % 2 ^ 32) = u32be n := by
  have byte : ∀ a b : Nat, a % 256 = b % 256 → UInt8.ofNat a = UInt8.ofNat b := by
    intro a b h
    exact UInt8.toNat_inj.mp (by simpa using h)
  unfold u32be
  rw [byte (n % 2 ^ 32 / 16777216) (n / 16777216) (by omega),
    byte (n % 2 ^ 32 / 65536) (n / 65536) (by omega),
    byte (n % 2 ^ 32 / 256) (n / 256) (by omega), byte (n % 2 ^ 32) n (by omega)]

/-- `u32::from_be_bytes`. -/
def ofU32be (a b c d : UInt8) : Nat :=
  a.toNat * 16777216 + b.toNat * 65536 + c.toNat * 256 + d.toNat

theorem ofU32be_u32be {n : Nat} (h : n < 2 ^ 32) :
    ofU32be (UInt8.ofNat (n / 16777216)) (UInt8.ofNat (n / 65536)) (UInt8.ofNat (n / 256))
      (UInt8.ofNat n) = n := by
  unfold ofU32be
  simp only [UInt8.toNat_ofNat']
  omega

/-! ### Texts -/

/-- The UTF-8 bytes of a text. -/
def utf8 (s : String) : List UInt8 := s.toByteArray.data.toList

/-- `String::from_utf8`. -/
def ofUtf8 (bytes : List UInt8) : Option String := String.fromUTF8? ⟨bytes.toArray⟩

theorem ofUtf8_utf8 (s : String) : ofUtf8 (utf8 s) = some s := by
  simp only [ofUtf8, utf8, Array.toArray_toList]
  exact dif_pos s.isValidUTF8

/-! ### Writers -/

/-- The bytes of a value; `none` = a number does not fit its field. -/
def Written := Option (List UInt8)

namespace Written

def bytes (bs : List UInt8) : Written := some bs

def append (v w : Written) : Written :=
  match v, w with
  | some bs, some cs => some (bs ++ cs)
  | _, _ => none

instance : Append Written := ⟨append⟩

/-- One writer after the other. -/
def concat : List Written → Written
  | [] => bytes []
  | w :: ws => w ++ concat ws

end Written

def writeU8 (n : Nat) : Written := Written.bytes [UInt8.ofNat n]

def writeU32 (n : Nat) : Written := if n < 2 ^ 32 then Written.bytes (u32be n) else none

theorem writeU32_fits {n : Nat} (h : n < 2 ^ 32) : writeU32 n = some (u32be n) := if_pos h

/-! ### Readers -/

variable {ε α β : Type}

/-- A reader of the front of the bytes left. -/
abbrev Reader (ε α : Type) := StateT (List UInt8) (Except ε) α

namespace Reader

/-- The next byte. -/
def u8 (short : ε) : Reader ε UInt8 := fun left =>
  match left with
  | b :: left => .ok (b, left)
  | [] => .error short

def u32 (short : ε) : Reader ε Nat := fun left =>
  match left with
  | a :: b :: c :: d :: left => .ok (ofU32be a b c d, left)
  | _ => .error short

/-- The next `n` bytes. -/
def take (short : ε) (n : Nat) : Reader ε (List UInt8) := fun left =>
  if left.length < n then .error short else .ok (left.take n, left.drop n)

def fail (e : ε) : Reader ε α := fun _ => .error e

/-- The bytes left. -/
def remaining : Reader ε Nat := fun left => .ok (left.length, left)

/-- `r`, `n` times. -/
def times (r : Reader ε α) : Nat → Reader ε (List α)
  | 0 => pure []
  | n + 1 => do
    let a ← r
    let as ← times r n
    pure (a :: as)

/-- Read all of `payload`. -/
def run (r : Reader ε α) (payload : List UInt8) : Except ε α := (·.1) <$> StateT.run r payload

end Reader

/-- The writer gives at least `k` bytes. -/
def Gives (k : Nat) (w : Written) : Prop := ∃ bs, w = some bs ∧ k ≤ bs.length

theorem Gives.append {k l : Nat} {v w : Written} (hv : Gives k v) (hw : Gives l w) :
    Gives (k + l) (v ++ w) := by
  obtain ⟨bs, rfl, hk⟩ := hv
  obtain ⟨cs, rfl, hl⟩ := hw
  exact ⟨bs ++ cs, rfl, by rw [List.length_append]; omega⟩

theorem Gives.weaken {k l : Nat} {w : Written} (h : Gives k w) (hl : l ≤ k) : Gives l w := by
  obtain ⟨bs, hw, hk⟩ := h
  exact ⟨bs, hw, by omega⟩

/-- The writer gives at least `k` bytes, which the reader turns into `res`. -/
def Reads (k : Nat) (w : Written) (r : Reader ε α) (res : Except ε α) : Prop :=
  ∃ bs, w = some bs ∧ k ≤ bs.length ∧ ∀ left, r (bs ++ left) = res.map (·, left)

theorem Reads.weaken {k l : Nat} {w : Written} {r : Reader ε α} {res : Except ε α}
    (h : Reads k w r res) (hl : l ≤ k) : Reads l w r res := by
  obtain ⟨bs, hw, hk, hr⟩ := h
  exact ⟨bs, hw, by omega, hr⟩

theorem Reads.gives {k : Nat} {w : Written} {r : Reader ε α} {res : Except ε α}
    (h : Reads k w r res) : Gives k w := by
  obtain ⟨bs, hw, hk, -⟩ := h
  exact ⟨bs, hw, hk⟩

theorem reads_pure (a : α) : Reads 0 (Written.bytes []) (pure a : Reader ε α) (.ok a) :=
  ⟨[], rfl, Nat.le_refl _, fun _ => rfl⟩

theorem Reads.bind {k l : Nat} {v w : Written} {r : Reader ε α} {a : α} {f : α → Reader ε β}
    {res : Except ε β} (h : Reads k v r (.ok a)) (hf : Reads l w (f a) res) :
    Reads (k + l) (v ++ w) (r >>= f) res := by
  obtain ⟨bs, rfl, hk, hr⟩ := h
  obtain ⟨cs, rfl, hl, hs⟩ := hf
  refine ⟨bs ++ cs, rfl, by rw [List.length_append]; omega, fun left => ?_⟩
  show (r (bs ++ cs ++ left) >>= fun p => f p.1 p.2) = _
  rw [List.append_assoc, hr]
  exact hs left

/-- What is refused stays refused, whatever was written after it. -/
theorem Reads.bind_error {k l : Nat} {v w : Written} {r : Reader ε α} {e : ε}
    (f : α → Reader ε β) (h : Reads k v r (.error e)) (hw : Gives l w) :
    Reads (k + l) (v ++ w) (r >>= f) (.error e) := by
  obtain ⟨bs, rfl, hk, hr⟩ := h
  obtain ⟨cs, rfl, hl⟩ := hw
  refine ⟨bs ++ cs, rfl, by rw [List.length_append]; omega, fun left => ?_⟩
  show (r (bs ++ cs ++ left) >>= fun p => f p.1 p.2) = _
  rw [List.append_assoc, hr]
  rfl

theorem Reads.map_error {k : Nat} {w : Written} {r : Reader ε α} {e : ε} (f : α → Reader ε β)
    (h : Reads k w r (.error e)) : Reads k w (r >>= f) (.error e) := by
  obtain ⟨bs, rfl, hk, hr⟩ := h
  refine ⟨bs, rfl, hk, fun left => ?_⟩
  show (r (bs ++ left) >>= fun p => f p.1 p.2) = _
  rw [hr]
  rfl

/-- The last step of a reader. -/
theorem Reads.map {k : Nat} {w : Written} {r : Reader ε α} {a : α} (f : α → Reader ε β) {b : β}
    (h : Reads k w r (.ok a)) (hf : ∀ left, f a left = .ok (b, left)) :
    Reads k w (r >>= f) (.ok b) := by
  obtain ⟨bs, rfl, hk, hr⟩ := h
  refine ⟨bs, rfl, hk, fun left => ?_⟩
  show (r (bs ++ left) >>= fun p => f p.1 p.2) = _
  rw [hr]
  exact hf left

/-- The reader, in front of exactly the bytes of the writer, ends with `a` and
nothing left. -/
def ReadsAll (w : Written) (r : Reader ε α) (a : α) : Prop :=
  ∃ bs, w = some bs ∧ r bs = .ok (a, [])

theorem Reads.bind_all {k : Nat} {v w : Written} {r : Reader ε α} {a : α} {f : α → Reader ε β}
    {b : β} (h : Reads k v r (.ok a)) (hf : ReadsAll w (f a) b) :
    ReadsAll (v ++ w) (r >>= f) b := by
  obtain ⟨bs, rfl, -, hr⟩ := h
  obtain ⟨cs, rfl, hs⟩ := hf
  refine ⟨bs ++ cs, rfl, ?_⟩
  show (r (bs ++ cs) >>= fun p => f p.1 p.2) = _
  rw [hr]
  exact hs

/-- The last field, and what the reader does once nothing is left. -/
theorem Reads.last {k : Nat} {w : Written} {r : Reader ε α} {a : α} {f : α → Reader ε β} {b : β}
    (h : Reads k w r (.ok a)) (hf : f a [] = .ok (b, [])) : ReadsAll w (r >>= f) b := by
  obtain ⟨bs, rfl, -, hr⟩ := h
  refine ⟨bs, rfl, ?_⟩
  show (r bs >>= fun p => f p.1 p.2) = _
  rw [← List.append_nil bs, hr]
  exact hf

theorem ReadsAll.map {w : Written} {r : Reader ε α} {a : α} (g : α → β) (h : ReadsAll w r a) :
    ReadsAll w (g <$> r) (g a) := by
  obtain ⟨bs, hw, hr⟩ := h
  refine ⟨bs, hw, ?_⟩
  show (g <$> r) bs = _
  simp only [Functor.map, StateT.map, hr]
  rfl

theorem ReadsAll.run {w : Written} {r : Reader ε α} {a : α} (h : ReadsAll w r a) :
    ∃ bs, w = some bs ∧ r.run bs = .ok a := by
  obtain ⟨bs, hw, hr⟩ := h
  refine ⟨bs, hw, ?_⟩
  show (·.1) <$> r bs = _
  rw [hr]
  rfl

theorem reads_u8 (short : ε) (n : Nat) :
    Reads 1 (writeU8 n) (Reader.u8 short) (.ok (UInt8.ofNat n)) :=
  ⟨[UInt8.ofNat n], rfl, Nat.le_refl _, fun _ => rfl⟩

theorem reads_u32 (short : ε) {n : Nat} (h : n < 2 ^ 32) :
    Reads 4 (writeU32 n) (Reader.u32 short) (.ok n) := by
  refine ⟨u32be n, writeU32_fits h, Nat.le_refl _, fun left => ?_⟩
  show Except.ok (ofU32be _ _ _ _, left) = _
  rw [ofU32be_u32be h]
  rfl

theorem reads_take (short : ε) (bs : List UInt8) :
    Reads bs.length (Written.bytes bs) (Reader.take short bs.length) (.ok bs) := by
  refine ⟨bs, rfl, Nat.le_refl _, fun left => ?_⟩
  simp [Reader.take, Except.map]

/-- Entries one after the other, none of them empty; `conv` is what the reader
makes of an entry. -/
theorem Reads.times {γ : Type} {r : Reader ε α} {write : γ → Written} {conv : γ → α} {cs : List γ}
    (h : ∀ c ∈ cs, Reads 1 (write c) r (.ok (conv c))) :
    Reads cs.length (Written.concat (cs.map write)) (Reader.times r cs.length)
      (.ok (cs.map conv)) := by
  induction cs with
  | nil => exact reads_pure []
  | cons c cs ih =>
    have hrest := ih fun d hd => h d (List.mem_cons_of_mem _ hd)
    have hcons := (h c List.mem_cons_self).bind (f := fun a => Reader.times r cs.length >>= fun as =>
      pure (a :: as)) (hrest.map (fun as => pure (conv c :: as)) fun _ => rfl)
    exact hcons.weaken (by simp [Nat.add_comm])

end Wire
