import HttpExchange.Numeral

/-!
# IP addresses

An address of either family, and its plain text: four decimal numbers with dots, or
eight hexadecimal groups with colons, none of them left out.
-/

namespace HttpExchange

inductive IpAddress
  | v4 (octets : Vector UInt8 4)
  | v6 (groups : Vector UInt16 8)
deriving DecidableEq, Repr

namespace IpAddress

/-- The IPv4 address of four octets. -/
def quad (a b c d : UInt8) : IpAddress := .v4 #v[a, b, c, d]

/-- An IPv4 address as a number of 32 bits. -/
def ofWord (n : Nat) : IpAddress :=
  quad (UInt8.ofNat (n / 0x1000000)) (UInt8.ofNat (n / 0x10000)) (UInt8.ofNat (n / 0x100))
    (UInt8.ofNat n)

def loopback : IpAddress := quad 127 0 0 1

def isV6 : IpAddress → Bool
  | v4 _ => false
  | v6 _ => true

/-- The groups that pairs of octets make, the high octet first. -/
def groupsOf : List UInt8 → List UInt16
  | high :: low :: rest => (256 * high.toUInt16 + low.toUInt16) :: groupsOf rest
  | _ => []

/-- Four octets are an IPv4 address and sixteen an IPv6 address. -/
def ofOctets? : List UInt8 → Option IpAddress
  | [a, b, c, d] => some (quad a b c d)
  | octets =>
    if h : octets.length = 16 ∧ (groupsOf octets).length = 8 then
      some (.v6 ⟨(groupsOf octets).toArray, by simpa using h.2⟩)
    else none

/-- The numbers of an address and the marks between them. -/
def pieces : IpAddress → List Bytes
  | v4 octets => (octets.toList.map fun o => Numeral.decimal o.toNat).intersperse [Byte.dot]
  | v6 groups => (groups.toList.map fun g => Numeral.hexadecimal g.toNat).intersperse [Byte.colon]

/-- The text of an address in a space of `capacity` bytes. A number or mark that does not
fit is left out; a shorter one after it may still be written. -/
def format (capacity : Nat) (address : IpAddress) : Bytes :=
  address.pieces.foldl
    (fun out piece => if out.length + piece.length ≤ capacity then out ++ piece else out) []

/-- The text of an address with room for all of it. -/
def text (address : IpAddress) : Bytes := address.format 64

end IpAddress

end HttpExchange
