/-
Byte slices read by index: the operations that can go out of bounds or overflow,
and what it takes that they never do.

A cursor has a slice and an offset into it.  Its operations are those of the
language, each of which faults where the language would panic or wrap.  `Tracks c r`
says that the cursor program `c` never faults and does at its offset what the reader
`r` does on the bytes that are left there.

* `Tracks.bind`, `Tracks.times` — programs made of such programs;
* `tracks_byte`, `tracks_block` — one byte, a run of bytes.
-/
import Iso4.Lib.Wire

namespace Wire

/-- How a call ends without a value. -/
inductive Fault (ε : Type) where
  | error (e : ε)
  /-- An index or a range outside the slice, or a machine integer that overflows. -/
  | panic

/-- A slice of bytes: at most `isize::MAX` of them. -/
structure BorrowedBytes where
  bytes : List UInt8
  fits : bytes.length < 2 ^ 63

namespace BorrowedBytes

variable {ε : Type}

def add (a b : Nat) : Except (Fault ε) Nat := if a + b < 2 ^ 64 then .ok (a + b) else .error .panic

def sub (a b : Nat) : Except (Fault ε) Nat := if b ≤ a then .ok (a - b) else .error .panic

/-- `data[i]`. -/
def index (data : BorrowedBytes) (i : Nat) : Except (Fault ε) UInt8 :=
  match data.bytes[i]? with
  | some b => .ok b
  | none => .error .panic

/-- `data[i..j]`. -/
def range (data : BorrowedBytes) (i j : Nat) : Except (Fault ε) (List UInt8) :=
  if i ≤ j ∧ j ≤ data.bytes.length then .ok ((data.bytes.drop i).take (j - i)) else .error .panic

/-- `u32::from_be_bytes(bytes.try_into().unwrap())`. -/
def fromBeBytes (bytes : List UInt8) : Except (Fault ε) Nat :=
  match bytes with
  | [a, b, c, d] => .ok (ofU32be a b c d)
  | _ => .error .panic

variable {data : BorrowedBytes} {i j : Nat}

theorem ok_bind {α β : Type} (a : α) (f : α → Except (Fault ε) β) : (Except.ok a >>= f) = f a := rfl

theorem add_ok (h : i + j < 2 ^ 64) : add (ε := ε) i j = .ok (i + j) := if_pos h

theorem sub_ok (h : j ≤ i) : sub (ε := ε) i j = .ok (i - j) := if_pos h

theorem index_ok {b : UInt8} {left : List UInt8} (h : data.bytes.drop i = b :: left) :
    data.index (ε := ε) i = .ok b := by
  have hget : data.bytes[i]? = some b := by
    rw [← Nat.add_zero i, ← List.getElem?_drop, h]
    rfl
  rw [index, hget]

theorem range_ok (h : j ≤ (data.bytes.drop i).length) (hi : i ≤ data.bytes.length) :
    data.range (ε := ε) i (i + j) = .ok ((data.bytes.drop i).take j) := by
  rw [List.length_drop] at h
  rw [range, if_pos (by omega), Nat.add_sub_cancel_left]

end BorrowedBytes

/-- A program over a slice and an offset. -/
abbrev Cursor (ε α : Type) := ReaderT BorrowedBytes (StateT Nat (Except (Fault ε))) α

namespace Cursor

variable {ε α : Type}

/-- The slice and the offset, as an operation of the language uses them. -/
def lift (f : BorrowedBytes → Nat → Except (Fault ε) (α × Nat)) : Cursor ε α := f

def fail (e : ε) : Cursor ε α := fun _ _ => .error (.error e)

/-- A loop over `0..count` that collects. -/
def times (c : Cursor ε α) : Nat → Cursor ε (List α)
  | 0 => pure []
  | n + 1 => do
    let a ← c
    let as ← times c n
    pure (a :: as)

end Cursor

variable {ε α β : Type}

/-- At every offset inside the slice the program does what the reader does on the
bytes left, and does not fault. -/
def Tracks (c : Cursor ε α) (r : Reader ε α) : Prop :=
  ∀ (data : BorrowedBytes) (offset : Nat), offset ≤ data.bytes.length →
    match r (data.bytes.drop offset) with
    | .error e => c data offset = .error (.error e)
    | .ok (a, left) => ∃ next, next ≤ data.bytes.length ∧ data.bytes.drop next = left ∧
        c data offset = .ok (a, next)

theorem tracks_pure (a : α) : Tracks (pure a : Cursor ε α) (pure a) :=
  fun _ offset h => ⟨offset, h, rfl, rfl⟩

theorem tracks_fail (e : ε) : Tracks (Cursor.fail e : Cursor ε α) (Reader.fail e) := fun _ _ _ => rfl

theorem Tracks.bind {c : Cursor ε α} {r : Reader ε α} {f : α → Cursor ε β} {g : α → Reader ε β}
    (h : Tracks c r) (hf : ∀ a, Tracks (f a) (g a)) : Tracks (c >>= f) (r >>= g) := by
  intro data offset hoffset
  have hc := h data offset hoffset
  show match (r (data.bytes.drop offset) >>= fun p => g p.1 p.2) with
    | .error e => (c data offset >>= fun p => f p.1 data p.2) = .error (.error e)
    | .ok (a, left) => ∃ next, next ≤ data.bytes.length ∧ data.bytes.drop next = left ∧
        (c data offset >>= fun p => f p.1 data p.2) = .ok (a, next)
  cases hr : r (data.bytes.drop offset) with
  | error e =>
    rw [hr] at hc
    rw [hc]
    rfl
  | ok p =>
    obtain ⟨a, left⟩ := p
    rw [hr] at hc
    obtain ⟨next, hnext, rfl, hok⟩ := hc
    rw [hok]
    exact hf a data next hnext

theorem Tracks.ite {p : Prop} [Decidable p] {c d : Cursor ε α} {r s : Reader ε α} (hc : Tracks c r)
    (hd : Tracks d s) : Tracks (if p then c else d) (if p then r else s) := by
  split
  · exact hc
  · exact hd

theorem Tracks.times {c : Cursor ε α} {r : Reader ε α} (h : Tracks c r) (n : Nat) :
    Tracks (Cursor.times c n) (Reader.times r n) := by
  induction n with
  | zero => exact tracks_pure []
  | succ n ih => exact h.bind fun a => ih.bind fun as => tracks_pure (a :: as)

theorem Tracks.map {c : Cursor ε α} {r : Reader ε α} (g : α → β) (h : Tracks c r) :
    Tracks (g <$> c) (g <$> r) := by
  intro data offset hoffset
  have hc := h data offset hoffset
  show match (r (data.bytes.drop offset) >>= fun p => Except.ok (g p.1, p.2)) with
    | .error e => (c data offset >>= fun p => Except.ok (g p.1, p.2)) = .error (.error e)
    | .ok (a, left) => ∃ next, next ≤ data.bytes.length ∧ data.bytes.drop next = left ∧
        (c data offset >>= fun p => Except.ok (g p.1, p.2)) = .ok (a, next)
  cases hr : r (data.bytes.drop offset) with
  | error e =>
    rw [hr] at hc
    rw [hc]
    rfl
  | ok p =>
    obtain ⟨a, left⟩ := p
    rw [hr] at hc
    obtain ⟨next, hnext, hleft, hok⟩ := hc
    rw [hok]
    exact ⟨next, hnext, hleft, rfl⟩

/-- A whole payload. -/
theorem Tracks.run {c : Cursor ε α} {r : Reader ε α} (h : Tracks c r) (data : BorrowedBytes) :
    (·.1) <$> c data 0 = (r.run data.bytes).mapError Fault.error := by
  have hc := h data 0 (Nat.zero_le _)
  rw [List.drop_zero] at hc
  show _ = ((·.1) <$> r data.bytes).mapError Fault.error
  cases hr : r data.bytes with
  | error e =>
    rw [hr] at hc
    rw [hc]
    rfl
  | ok p =>
    obtain ⟨a, left⟩ := p
    rw [hr] at hc
    obtain ⟨next, -, -, hok⟩ := hc
    rw [hok]
    rfl

theorem drop_add_of_le {data : BorrowedBytes} {offset n : Nat} (h : n ≤ (data.bytes.drop offset).length)
    (ho : offset ≤ data.bytes.length) :
    offset + n ≤ data.bytes.length ∧ offset + n < 2 ^ 64 ∧
      data.bytes.drop (offset + n) = (data.bytes.drop offset).drop n := by
  have hfits := data.fits
  rw [List.length_drop] at h
  refine ⟨by omega, by omega, ?_⟩
  rw [List.drop_drop]

end Wire
