/-
`URLSearchParams` of the sandbox (`crates/core/src/webtypes.js`): the codec and the operations on
the list `_p`.

* `WebTypes.encodeQueryComponent`, `WebTypes.decodeQuery` — one name or value; the first throws
  on an unpaired surrogate, and the second gives what it cannot decode as it stands;
* `WebTypes.parse`, `WebTypes.toQuery` — `_parse` into an empty list, and `toString`;
* `WebTypes.Pairs` — the operations.
-/
import Iso4.TextCodec
import Iso4.Lib.Percent

namespace Iso4

open Percent (encodeURIComponent decodeURIComponent hexDigit)

namespace WebTypes

/-- `_p`. -/
abbrev Pairs := List (Units × Units)

/-! ### The codec -/

/-- `.replace(/[!'()~]/g, …)`, at one unit. -/
def escapeMark (u : UInt16) : Units :=
  if [0x21, 0x27, 0x28, 0x29, 0x7E].contains u.toNat then
    [0x25, UInt16.ofNat (hexDigit (u.toNat / 16)), UInt16.ofNat (hexDigit (u.toNat % 16))]
  else [u]

/-- `.replace(/%20/g, '+')`. -/
def plusSpaces : Units → Units
  | [] => []
  | [u] => [u]
  | [u, v] => [u, v]
  | u :: v :: w :: us =>
    if u = 0x25 ∧ v = 0x32 ∧ w = 0x30 then 0x2B :: plusSpaces us
    else u :: plusSpaces (v :: w :: us)

/-- Nothing where `encodeURIComponent` throws a `URIError`. -/
def encodeQueryComponent (s : Units) : Option Units :=
  (encodeURIComponent s).map fun e => plusSpaces (e.flatMap escapeMark)

/-- `.replace(/\\+/g, ' ')`. -/
def plussed (s : Units) : Units := s.map fun u => if u = 0x2B then 0x20 else u

def decodeQuery (s : Units) : Units := (decodeURIComponent (plussed s)).getD (plussed s)

/-- A part is cut at its first `=`; `idxOf` is the length where `indexOf` is -1. -/
def rawPair (part : Units) : Units × Units :=
  let eq := part.idxOf 0x3D
  if eq = part.length then (part, []) else (part.take eq, part.drop (eq + 1))

/-- `query`, without one `?` at its start. -/
def stripMark (query : Units) : Units := if query.head? = some 0x3F then query.drop 1 else query

/-- The parts that `_parse` does not skip. -/
def queryParts (s : Units) : List Units := (s.splitOn 0x26).filter fun part => part ≠ []

/-- What `_parse` pushes. -/
def parse (query : Units) : Pairs :=
  if stripMark query = [] then []
  else
    (queryParts (stripMark query)).map fun part =>
      (decodeQuery (rawPair part).1, decodeQuery (rawPair part).2)

def encodePair (kv : Units × Units) : Option Units :=
  match encodeQueryComponent kv.1 with
  | none => none
  | some k => (encodeQueryComponent kv.2).map fun v => k ++ 0x3D :: v

/-- `toString`. -/
def toQuery (p : Pairs) : Option Units := (p.mapM encodePair).map fun parts =>
  [0x26].intercalate parts

/-! ### The list -/

namespace Pairs

def append (p : Pairs) (name value : Units) : Pairs := p ++ [(name, value)]

/-- The loop of `delete`, `i` more entries to look at. -/
def deleteFrom (name : Units) : (i : Nat) → Pairs → Pairs
  | 0, p => p
  | i + 1, p =>
    deleteFrom name i (if (p[i]?).map Prod.fst = some name then p.eraseIdx i else p)

/-- `delete`: from the last entry to the first. -/
def delete (p : Pairs) (name : Units) : Pairs := deleteFrom name p.length p

def get (p : Pairs) (name : Units) : Option Units := (p.find? (·.1 = name)).map Prod.snd

def getAll (p : Pairs) (name : Units) : List Units := (p.filter (·.1 = name)).map Prod.snd

def has (p : Pairs) (name : Units) : Bool := p.any (·.1 = name)

/-- The loop of `set`, from index `i` on: the first match takes the value, and the others are
spliced out. -/
def setFrom (name value : Units) : (fuel i : Nat) → (found : Bool) → Pairs → Bool × Pairs
  | 0, _, found, p => (found, p)
  | fuel + 1, i, found, p =>
    match p[i]? with
    | none => (found, p)
    | some kv =>
      if kv.1 ≠ name then setFrom name value fuel (i + 1) found p
      else if found = false then setFrom name value fuel (i + 1) true (p.set i (kv.1, value))
      else setFrom name value fuel i found (p.eraseIdx i)

def set (p : Pairs) (name value : Units) : Pairs :=
  match setFrom name value p.length 0 false p with
  | (true, p) => p
  | (false, p) => p ++ [(name, value)]

/-- `a < b`, by units. -/
def unitsLe : Units → Units → Bool
  | [], _ => true
  | _ :: _, [] => false
  | a :: as, b :: bs =>
    if a.toNat < b.toNat then true else if b.toNat < a.toNat then false else unitsLe as bs

/-- The sort of JavaScript is stable. -/
def sort (p : Pairs) : Pairs := p.mergeSort fun a b => unitsLe a.1 b.1

end Pairs

end WebTypes

end Iso4
