/-
Encodings with lengths and counts in them.

An encoder that writes a text, a blob or a list casts its length to 32 bits and
writes beside it the bytes that the length counts.  An encoding is a list of
pieces here, so that the numbers it casts can be told from its bytes.

* `Measured` — no number cast is more than the bytes written;
* `Measured.append`, `Measured.counted`, `Measured.list` — the ways encodings are put
  together.
-/
import Iso4.Lib.Codec

namespace Wire

inductive Piece where
  /-- A length or a count, cast to 32 bits. -/
  | count (n : Nat)
  | raw (bytes : List UInt8)

def Piece.bytes : Piece → List UInt8
  | .count n => u32be n
  | .raw bytes => bytes

/-- What the pieces write. -/
def bytesOf (ps : List Piece) : List UInt8 := ps.flatMap Piece.bytes

/-- The numbers the pieces cast. -/
def countsOf : List Piece → List Nat
  | [] => []
  | .count n :: ps => n :: countsOf ps
  | .raw _ :: ps => countsOf ps

@[simp] theorem bytesOf_nil : bytesOf [] = [] := rfl

@[simp] theorem bytesOf_count (n : Nat) (ps : List Piece) :
    bytesOf (.count n :: ps) = u32be n ++ bytesOf ps := rfl

@[simp] theorem bytesOf_raw (bytes : List UInt8) (ps : List Piece) :
    bytesOf (.raw bytes :: ps) = bytes ++ bytesOf ps := rfl

@[simp] theorem bytesOf_append (ps qs : List Piece) :
    bytesOf (ps ++ qs) = bytesOf ps ++ bytesOf qs := List.flatMap_append

theorem bytesOf_flatMap {α : Type} (f : α → List Piece) (as : List α) :
    bytesOf (as.flatMap f) = as.flatMap fun a => bytesOf (f a) := by
  induction as with
  | nil => rfl
  | cons a as ih => simp [ih]

theorem countsOf_append (ps qs : List Piece) :
    countsOf (ps ++ qs) = countsOf ps ++ countsOf qs := by
  induction ps with
  | nil => rfl
  | cons p ps ih =>
    cases p with
    | count n => simp [countsOf, ih]
    | raw bytes => simp [countsOf, ih]

/-- No number cast is more than the bytes written. -/
def Measured (ps : List Piece) : Prop := ∀ n ∈ countsOf ps, n ≤ (bytesOf ps).length

theorem measured_nil : Measured [] := by
  intro n hn
  simp [countsOf] at hn

theorem measured_raw (bytes : List UInt8) : Measured [.raw bytes] := by
  intro n hn
  simp [countsOf] at hn

theorem Measured.append {ps qs : List Piece} (hp : Measured ps) (hq : Measured qs) :
    Measured (ps ++ qs) := by
  intro n hn
  rw [bytesOf_append, List.length_append]
  rw [countsOf_append, List.mem_append] at hn
  obtain hn | hn := hn
  · have := hp n hn
    omega
  · have := hq n hn
    omega

theorem Measured.flatMap {α : Type} {f : α → List Piece} {as : List α}
    (h : ∀ a, Measured (f a)) : Measured (as.flatMap f) := by
  induction as with
  | nil => exact measured_nil
  | cons a as ih => exact (h a).append ih

/-- A number in front of the bytes it counts. -/
theorem Measured.counted {n : Nat} {ps : List Piece} (h : Measured ps)
    (hn : n ≤ 4 + (bytesOf ps).length) : Measured (.count n :: ps) := by
  intro k hk
  rw [bytesOf_count, List.length_append, u32be_length]
  obtain rfl | hk := List.mem_cons.mp hk
  · exact hn
  · have := h k hk
    omega

/-- A list whose entries take a byte or more, behind its count. -/
theorem Measured.list {α : Type} {f : α → List Piece} (h : ∀ a, Measured (f a))
    (hpos : ∀ a, 0 < (bytesOf (f a)).length) (as : List α) :
    Measured (.count as.length :: as.flatMap f) := by
  have hcount := length_le_flatMap hpos as
  rw [← bytesOf_flatMap] at hcount
  exact (Measured.flatMap h).counted (by omega)

end Wire
