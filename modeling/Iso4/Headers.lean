/-
`Headers` of the sandbox (`crates/core/src/webtypes.js`): `checkName`, `checkValue` and the
operations on the flat list `_l`, in which each name stands before its value.

* `WebTypes.checkName`, `WebTypes.checkValue` — what may stand in the list, or a `TypeError`;
* `WebTypes.HeaderList` — the loops, by index where they splice;
* `WebTypes.HeaderList.step`, `WebTypes.Pairs.step` — the calls on a `Headers` and on a
  `URLSearchParams`, with what they give the caller.
-/
import Iso4.SearchParams

namespace Iso4

namespace WebTypes

/-! ### Names and values -/

/-- The `TypeError`s, with the text in their message. -/
inductive HeaderError where
  | invalidName (name : Units)
  | invalidValue
  | notByteString (value : Units)
  deriving DecidableEq

/-- A unit that `TOKEN_RE` takes. -/
def isTokenUnit (u : UInt16) : Bool :=
  let c := u.toNat
  (0x30 ≤ c && c ≤ 0x39) || (0x41 ≤ c && c ≤ 0x5A) || (0x61 ≤ c && c ≤ 0x7A) ||
    [0x21, 0x23, 0x24, 0x25, 0x26, 0x27, 0x2A, 0x2B, 0x2D, 0x2E, 0x5E, 0x5F, 0x60, 0x7C,
      0x7E].contains c

def isUpper (u : UInt16) : Bool := 0x41 ≤ u.toNat && u.toNat ≤ 0x5A

/-- `toLowerCase`, on a token. -/
def toLowerUnit (u : UInt16) : UInt16 := if isUpper u then UInt16.ofNat (u.toNat + 0x20) else u

def checkName (name : Units) : Except HeaderError Units :=
  if name ≠ [] ∧ name.all isTokenUnit = true then .ok (name.map toLowerUnit)
  else .error (.invalidName name)

def isBlank (u : UInt16) : Bool := u = 0x09 || u = 0x20

/-- `.replace(/^[\t ]+|[\t ]+$/g, '')`. -/
def trim (value : Units) : Units :=
  ((value.dropWhile isBlank).reverse.dropWhile isBlank).reverse

/-- NUL, CR and LF. -/
def isForbidden (u : UInt16) : Bool := u = 0x00 || u = 0x0D || u = 0x0A

def checkValue (value : Units) : Except HeaderError Units :=
  let v := trim value
  if v.any isForbidden = true then .error .invalidValue
  else if v.all (fun u => u.toNat ≤ 0xFF) = true then .ok v
  else .error (.notByteString v)

/-! ### `Headers` -/

/-- `_l`. -/
abbrev HeaderList := List Units

namespace HeaderList

/-- `splice(i, 2)`. -/
def splice (l : HeaderList) (i : Nat) : HeaderList := l.take i ++ l.drop (i + 2)

def append (l : HeaderList) (name value : Units) : Except HeaderError HeaderList := do
  let n ← checkName name
  let v ← checkValue value
  pure (l ++ [n, v])

/-- The loop of `delete`; the entry to look at is the one before `i`, at `i - 2`. -/
def deleteFrom (n : Units) : (i : Nat) → HeaderList → HeaderList
  | i + 2, l => deleteFrom n i (if l[i]? = some n then splice l i else l)
  | _, l => l

def delete (l : HeaderList) (name : Units) : Except HeaderError HeaderList := do
  let n ← checkName name
  pure (deleteFrom n l.length l)

/-- The loop of `get`. -/
def getFrom (n : Units) : (out : Option Units) → HeaderList → Option Units
  | out, k :: v :: l =>
    getFrom n
      (if k ≠ n then out
      else
        match out with
        | none => some v
        | some out => some (out ++ [0x2C, 0x20] ++ v)) l
  | out, _ => out

def get (l : HeaderList) (name : Units) : Except HeaderError (Option Units) := do
  let n ← checkName name
  pure (getFrom n none l)

/-- `set-cookie`. -/
def setCookie : Units := [0x73, 0x65, 0x74, 0x2D, 0x63, 0x6F, 0x6F, 0x6B, 0x69, 0x65]

def getSetCookie : HeaderList → List Units
  | k :: v :: l => if k = setCookie then v :: getSetCookie l else getSetCookie l
  | _ => []

/-- The loop of `has`. -/
def hasFrom (n : Units) : HeaderList → Bool
  | k :: _ :: l => if k = n then true else hasFrom n l
  | [k] => k = n
  | [] => false

def has (l : HeaderList) (name : Units) : Except HeaderError Bool := do
  let n ← checkName name
  pure (hasFrom n l)

/-- The loop of `set`, from index `i` on. -/
def setFrom (n v : Units) : (fuel i : Nat) → (found : Bool) → HeaderList → Bool × HeaderList
  | 0, _, found, l => (found, l)
  | fuel + 1, i, found, l =>
    match l[i]? with
    | none => (found, l)
    | some k =>
      if k ≠ n then setFrom n v fuel (i + 2) found l
      else if found = false then setFrom n v fuel (i + 2) true (List.set l (i + 1) v)
      else setFrom n v fuel i found (splice l i)

def set (l : HeaderList) (name value : Units) : Except HeaderError HeaderList := do
  let n ← checkName name
  let v ← checkValue value
  match setFrom n v l.length 0 false l with
  | (true, l) => pure l
  | (false, l) => pure (l ++ [n, v])

/-- The names of `_sorted`, each once, in the order of the list. -/
def namesFrom : (names : List Units) → HeaderList → List Units
  | names, n :: _ :: l => namesFrom (if n ∈ names then names else names ++ [n]) l
  | names, [n] => if n ∈ names then names else names ++ [n]
  | names, [] => names

/-- What `_sorted` pushes for a name; the list has a value for it. -/
def sortedEntry (l : HeaderList) (n : Units) : Except HeaderError (List (Units × Units)) :=
  if n = setCookie then .ok ((getSetCookie l).map fun v => (n, v))
  else do
    let value ← get l n
    pure [(n, value.getD [])]

/-- `_sorted`: `names.sort()` compares units. -/
def sorted (l : HeaderList) : Except HeaderError (List (Units × Units)) :=
  (fun entries => entries.flatten) <$>
    ((namesFrom [] l).mergeSort Pairs.unitsLe).mapM (sortedEntry l)

end HeaderList

/-! ### Calls -/

/-- What a call gives its caller. -/
inductive Reply where
  | done
  | error (e : HeaderError)
  | value (v : Option Units)
  | values (vs : List Units)
  | flag (b : Bool)
  | entries (es : List (Units × Units))
  deriving DecidableEq

inductive HeadersCall where
  | append (name value : Units)
  | delete (name : Units)
  | get (name : Units)
  | getSetCookie
  | has (name : Units)
  | set (name value : Units)
  /-- `forEach`, `entries`, `keys`, `values` and the iterator walk over `_sorted`. -/
  | iterate

/-- A change that throws leaves what there is. -/
def changed {σ : Type} (s : σ) : Except HeaderError σ → σ × Reply
  | .ok s' => (s', .done)
  | .error e => (s, .error e)

def answered {α : Type} (reply : α → Reply) : Except HeaderError α → Reply
  | .ok a => reply a
  | .error e => .error e

def HeaderList.step (l : HeaderList) : HeadersCall → HeaderList × Reply
  | .append name value => changed l (l.append name value)
  | .delete name => changed l (l.delete name)
  | .get name => (l, answered .value (l.get name))
  | .getSetCookie => (l, .values l.getSetCookie)
  | .has name => (l, answered .flag (l.has name))
  | .set name value => changed l (l.set name value)
  | .iterate => (l, answered .entries l.sorted)

inductive ParamsCall where
  | append (name value : Units)
  | delete (name : Units)
  | get (name : Units)
  | getAll (name : Units)
  | has (name : Units)
  | set (name value : Units)
  /-- `forEach`, `entries`, `keys`, `values` and the iterator walk over `_p`. -/
  | iterate

def Pairs.step (p : Pairs) : ParamsCall → Pairs × Reply
  | .append name value => (p.append name value, .done)
  | .delete name => (p.delete name, .done)
  | .get name => (p, .value (p.get name))
  | .getAll name => (p, .values (p.getAll name))
  | .has name => (p, .flag (p.has name))
  | .set name value => (p.set name value, .done)
  | .iterate => (p, .entries p)

/-- A list after calls, and the replies. -/
def calls {σ κ : Type} (step : σ → κ → σ × Reply) : σ → List κ → σ × List Reply
  | s, [] => (s, [])
  | s, c :: cs => ((calls step (step s c).1 cs).1, (step s c).2 :: (calls step (step s c).1 cs).2)

end WebTypes

end Iso4
