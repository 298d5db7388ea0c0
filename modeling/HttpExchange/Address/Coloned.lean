import HttpExchange.Address.Dotted

/-!
# IPv6 text

Reading takes eight groups of one to four hexadecimal digits, or fewer than eight around
one `::` that stands for the zero groups left out; a dotted quad may stand for the last
two groups. Writing gives the canonical text: lower case, no leading zeros, `::` for the
first of the longest runs of two or more zero groups, and a dotted quad at the end of an
address that only wraps an IPv4 address.
-/

namespace HttpExchange

namespace Coloned

/-! ## Reading -/

def group? (s : Bytes) : Option UInt16 :=
  if s ≠ [] ∧ s.length ≤ 4 ∧ s.all (fun b => (Byte.hexValue? b).isSome) then
    some (UInt16.ofNat (Numeral.value 16 s))
  else none

/-- The two groups that a dotted quad stands for. -/
def quadGroups? (s : Bytes) : Option (List UInt16) :=
  match Dotted.quad? s with
  | some (.v4 octets) =>
    match octets.toList with
    | [a, b, c, d] =>
      some [256 * a.toUInt16 + b.toUInt16, 256 * c.toUInt16 + d.toUInt16]
    | _ => none
  | _ => none

/-- Groups with single colons between them; the last may be a dotted quad. -/
def groupsOfFields? : List Bytes → Option (List UInt16)
  | [] => some []
  | [last] =>
    match group? last with
    | some g => some [g]
    | none => quadGroups? last
  | field :: rest => do return (← group? field) :: (← groupsOfFields? rest)

/-- The texts between the colons, an empty one at the end included. -/
def parts (s : Bytes) : List Bytes :=
  let fields := Bytes.fields Byte.colon s
  if s.getLast? = some Byte.colon then fields ++ [[]] else fields

/-- The parts before and after the first `::`. -/
def cutAtGap? : Bytes → Option (Bytes × Bytes)
  | [] => none
  | [_] => none
  | b :: c :: rest =>
    if b = Byte.colon ∧ c = Byte.colon then some ([], rest)
    else (cutAtGap? (c :: rest)).map fun (l, r) => (b :: l, r)

def groups? (s : Bytes) : Option (List UInt16) :=
  match cutAtGap? s with
  | none => do
    let all ← groupsOfFields? (parts s)
    if all.length = 8 then some all else none
  | some (before, after) => do
    let front ← (parts before).mapM group?
    let back ← groupsOfFields? (parts after)
    if front.length + back.length < 8 then
      some (front ++ List.replicate (8 - front.length - back.length) 0 ++ back)
    else none

def address? (s : Bytes) : Option IpAddress := do
  let groups ← groups? s
  if h : groups.length = 8 then some (.v6 ⟨groups.toArray, by simpa using h⟩) else none

/-! ## Zones -/

/-- Addresses that hold on one link or one host only: `fe80::/10`, and groups of that reach. -/
def isLinkLocal (groups : List UInt16) : Bool :=
  match groups with
  | [] => false
  | g :: _ => g &&& 0xffc0 == 0xfe80 || g &&& 0xff0f == 0xff01 || g &&& 0xff0f == 0xff02

/-- The name of the interface that every host has. -/
def loopbackZone : Bytes := ascii "lo"

/-- A zone is known by its number, on one link also by the name of the interface. -/
def isZone (groups : List UInt16) (zone : Bytes) : Bool :=
  (Numeral.decimal? 0x100000000 zone).isSome || (isLinkLocal groups && zone == loopbackZone)

/-- An address, with or without a zone after `%`. The zone is no part of the result. -/
def scoped? (s : Bytes) : Option IpAddress :=
  match Bytes.cutAt? Byte.percent s with
  | none => address? s
  | some (text, zone) =>
    match groups? text with
    | none => none
    | some groups => if isZone groups zone then address? text else none

/-! ## Writing -/

/-- The length of the run of zeros at the head. -/
def zeroRun (groups : List UInt16) : Nat := (groups.takeWhile (· == 0)).length

/-- Where the first of the longest runs of zero groups starts, and its length. -/
def longestRun : List UInt16 → Nat × Nat
  | [] => (0, 0)
  | g :: rest =>
    let here := zeroRun (g :: rest)
    let (start, length) := longestRun rest
    if length ≤ here then (0, here) else (start + 1, length)

def joined (pieces : List Bytes) : Bytes := (pieces.intersperse [Byte.colon]).flatten

def hex (groups : List UInt16) : List Bytes := groups.map fun g => Numeral.hexadecimal g.toNat

/-- The last two groups as a dotted quad. -/
def quadText (high low : UInt16) : Bytes :=
  (IpAddress.ofWord (high.toNat * 0x10000 + low.toNat)).text

def gap : Bytes := [Byte.colon, Byte.colon]

def canonical (groups : List UInt16) : Bytes :=
  match groups with
  | [0, 0, 0, 0, 0, 0, high, low] =>
    if high = 0 then gap ++ (if low = 0 then [] else Numeral.hexadecimal low.toNat)
    else gap ++ quadText high low
  | [0, 0, 0, 0, 0, 0xffff, high, low] => ascii "::ffff:" ++ quadText high low
  | _ =>
    let (start, length) := longestRun groups
    if length < 2 then joined (hex groups)
    else joined (hex (groups.take start)) ++ gap ++ joined (hex (groups.drop (start + length)))

end Coloned

end HttpExchange
