/-
The table of reserved addresses of the hardened fetch (`packages/iso4-fetch/src/dns.ts`).

An address is given as a text.  With a colon it is read as IPv6: brackets and the zone are
removed, a dotted tail becomes two words, `::` is filled up to eight words, and an embedded IPv4
address is judged as that one.  Without a colon its four parts are read by `Number`.

* `isReservedIp` — the check;
* `assertPublicAddresses_ok` — a name is resolved to public addresses, or refused.
-/
import Iso4.Lib.JsNumber
import Iso4.FetchRules

namespace Iso4

open Text Js

/-! ### IPv4 -/

/-- The reserved ranges of IPv4, on the first three parts. -/
def reservedOctets (a b c : JsNumber) : Bool :=
  a.eq 0
    || a.eq 10
    || a.eq 127
    || (a.eq 100 && b.toInt32 &&& 0xc0 == 64)
    || (a.eq 169 && b.eq 254)
    || (a.eq 172 && b.ge 16 && b.le 31)
    || (a.eq 192 && b.eq 0 && (c.eq 0 || c.eq 2))
    || (a.eq 192 && b.eq 168)
    || (a.eq 198 && (b.eq 18 || b.eq 19))
    || (a.eq 198 && b.eq 51 && c.eq 100)
    || (a.eq 203 && b.eq 0 && c.eq 113)
    || a.ge 224

def outOfByte (p : JsNumber) : Bool := p.isNaN || p.lt 0 || p.gt 255

/-- `isReservedIp` of a text without a colon. -/
def isReservedV4 (ip : String) : Bool :=
  match (dotted ip).map number with
  | [a, b, c, d] => [a, b, c, d].any outOfByte || reservedOctets a b c
  | _ => true

/-! ### The words of an IPv6 text -/

/-- What `.` does not match in a regular expression. -/
def isLineTerminator (c : Char) : Bool := [10, 13, 0x2028, 0x2029].contains c.toNat

/-- `replace(/%.*$/, '')`: from the first `%` with one line behind it. -/
def stripZone : List Char → List Char
  | [] => []
  | c :: rest => if c == '%' && !rest.any isLineTerminator then [] else c :: stripZone rest

/-- The address without its brackets and zone. -/
def bare (ip : String) : List Char := stripZone (unbracket (toLowerCase ip)).toList

/-- `^(\d+)\.(\d+)\.(\d+)\.(\d+)$`. -/
def dottedQuad (text : List Char) : Option (Nat × Nat × Nat × Nat) :=
  match text.splitOn '.' with
  | [a, b, c, d] => do
    return (← integer 10 a, ← integer 10 b, ← integer 10 c, ← integer 10 d)
  | _ => none

/-- `n.toString(16)`. -/
def hexText (n : Nat) : List Char := Nat.toDigits 16 n

/-- The first tail that is a dotted quad becomes two hex words. -/
def moveDotted : List Char → List Char
  | [] => []
  | char :: rest =>
    match dottedQuad (char :: rest) with
    | some (a, b, c, d) => hexText (a * 256 + b) ++ ':' :: hexText (c * 256 + d)
    | none => char :: moveDotted rest

/-- `split('::')`. -/
def splitPairs : List Char → List (List Char)
  | [] => [[]]
  | ':' :: ':' :: rest => [] :: splitPairs rest
  | c :: rest => (splitPairs rest).modifyHead (c :: ·)

/-- `half === '' ? [] : half.split(':')`. -/
def halfWords (half : List Char) : List (List Char) :=
  if half = [] then [] else half.splitOn ':'

/-- `parseInt(word, 16)`: the leading digits, `NaN` without one. -/
def parseHex (word : List Char) : Option Nat :=
  integer 16 (word.takeWhile fun c => digit c < 16)

/-- `::` stands for the words that are missing of eight. -/
def wordList (addr : List Char) : List (Option Nat) :=
  let halves := splitPairs (moveDotted addr)
  let headWords := halfWords (halves.headD [])
  let tailWords := halfWords (halves[1]?.getD [])
  (headWords ++ List.replicate (8 - headWords.length - tailWords.length) ['0'] ++ tailWords).map
    parseHex

/-! ### The check -/

def quadText (a b c d : Nat) : List Char :=
  (Nat.repr a).toList ++ '.' :: ((Nat.repr b).toList ++ '.' :: ((Nat.repr c).toList ++
    '.' :: (Nat.repr d).toList))

/-- Two words as a dotted quad. -/
def v4 (hi lo : Nat) : String :=
  String.ofList (quadText (hi >>> 8) (hi &&& 0xff) (lo >>> 8) (lo &&& 0xff))

/-- The ranges of IPv6, on the words. -/
def reservedWords (words : List (Option Nat)) : Bool :=
  let w (i : Nat) : Option Nat := words[i]?.join
  let embedded (hi lo : Option Nat) : Bool := isReservedV4 (v4 (hi.getD 0) (lo.getD 0))
  let first := (w 0).getD 0
  -- `::/96` also covers `::` and `::1`.
  if w 0 == some 0 && w 1 == some 0 && w 2 == some 0 && w 3 == some 0 && w 4 == some 0 &&
      (w 5 == some 0 || w 5 == some 0xffff) then embedded (w 6) (w 7)
  else if w 0 == some 0 && w 1 == some 0 && w 2 == some 0 && w 3 == some 0 && w 4 == some 0xffff &&
      w 5 == some 0 then embedded (w 6) (w 7)
  else if w 0 == some 0x64 && w 1 == some 0xff9b && w 2 == some 0 && w 3 == some 0 &&
      w 4 == some 0 && w 5 == some 0 then embedded (w 6) (w 7)
  else if w 0 == some 0x2002 then embedded (w 1) (w 2)
  else
    (w 0 == some 0x64 && w 1 == some 0xff9b && w 2 == some 1)
      || (w 0 == some 0x2001 && w 1 == some 0)
      || first &&& 0xffc0 == 0xfe80
      || first &&& 0xffc0 == 0xfec0
      || first &&& 0xfe00 == 0xfc00
      || first &&& 0xff00 == 0xff00

section Check

variable (isIPv6 : String → Bool)

/-- Whether an address must never be connected to. -/
def isReservedIp (ip : String) : Bool :=
  if ip.toList.contains ':' then
    let addr := bare ip
    if !isIPv6 (String.ofList addr) then true
    else reservedWords (wordList addr)
  else isReservedV4 ip

/-- Refuse a name resolved to no address or to a reserved one. -/
def assertPublicAddresses (hostname : String) (addresses : List String) : Except String Unit :=
  if addresses.isEmpty then .error ("fetch: no DNS addresses for \"" ++ hostname ++ "\"")
  else addresses.forM fun address =>
    if isReservedIp isIPv6 address then
      .error ("fetch: request blocked — \"" ++ hostname ++
        "\" resolves to private/reserved IP " ++ address)
    else .ok ()

/-- A name passes when it has an address and none is reserved. -/
theorem assertPublicAddresses_ok (hostname : String) (addresses : List String) :
    assertPublicAddresses isIPv6 hostname addresses = .ok () ↔
      addresses ≠ [] ∧ ∀ address ∈ addresses, isReservedIp isIPv6 address = false := by
  have hloop : ∀ addresses : List String,
      (addresses.forM fun address =>
        if isReservedIp isIPv6 address then
          Except.error ("fetch: request blocked — \"" ++ hostname ++
            "\" resolves to private/reserved IP " ++ address)
        else .ok ()) = .ok () ↔ ∀ address ∈ addresses, isReservedIp isIPv6 address = false := by
    intro addresses
    induction addresses with
    | nil => simp [pure, Except.pure]
    | cons address rest ih =>
      rw [List.forM_eq_forM] at ih ⊢
      rw [List.forM_cons]
      cases hreserved : isReservedIp isIPv6 address with
      | true => simp [bind, Except.bind, hreserved]
      | false => simpa [bind, Except.bind, hreserved] using ih
  unfold assertPublicAddresses
  rw [← hloop]
  cases addresses with
  | nil => simp
  | cons address rest => simp

end Check

end Iso4
