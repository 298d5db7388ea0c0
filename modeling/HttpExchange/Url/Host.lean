import HttpExchange.Address.Coloned
import HttpExchange.Failure

/-!
# The host of a URL

A host is an address in brackets, an IPv4 address in any of its spellings, or a name.
A bracketed address loses its zone and gives way to its canonical text when that is
shorter, an IPv4 address gives way to a dotted quad, and in a name the percent escapes
are undone. Which of these a text is, and which bytes it may have, is decided as in libcurl 7.88.1.
-/

namespace HttpExchange

namespace UrlHost

/-! ## Escapes -/

/-- The byte that a percent sign and two hexadecimal digits stand for. -/
def escape? (sign high low : UInt8) : Option UInt8 :=
  if sign = Byte.percent then do return 16 * (← Byte.hexValue? high) + (← Byte.hexValue? low)
  else none

/-- Undoes the escapes. What is no escape stays as it is; a decoded control byte is refused. -/
def unescape? : Bytes → Option Bytes
  | b :: high :: low :: rest =>
    match escape? b high low with
    | some decoded => if decoded < 32 then none else (unescape? rest).map (decoded :: ·)
    | none => (unescape? (high :: low :: rest)).map (b :: ·)
  | s => some s

/-! ## Addresses in brackets -/

def isAddressByte (b : UInt8) : Bool :=
  (Byte.hexValue? b).isSome || b == Byte.colon || b == Byte.dot

/-- The zone behind its percent sign, up to a closing bracket. The sign may be written as
an escape, `%25`, unless nothing would be left of the zone then. -/
def zoneName (s : Bytes) : Bytes :=
  match s.takeWhile (· != Byte.closeBracket) with
  | 50 :: 53 :: b :: rest => b :: rest
  | name => name

def zoneLimit : Nat := 15

/-- What may follow an address in its brackets: nothing, or a zone that is not too long. -/
def isZone : Bytes → Bool
  | [] => true
  | b :: rest => b == Byte.percent && zoneName rest != [] && (zoneName rest).length ≤ zoneLimit

/-- The host for the text between the brackets. The zone is no part of it. -/
def bracketed? (inner : Bytes) : Except UrlFault Bytes :=
  let address := inner.takeWhile isAddressByte
  if isZone (inner.dropWhile isAddressByte) then
    match Coloned.groups? address with
    | none => .error .colonAddress
    | some groups =>
      let canonical := Coloned.canonical groups
      let text := if canonical.length < address.length then canonical else address
      .ok (Byte.openBracket :: text ++ [Byte.closeBracket])
  else .error .colonAddress

/-! ## Names -/

/-- The marks that no host name holds. -/
def forbidden : Bytes := ascii " \r\n\t/:#?!@\x7b\x7d[]\\$'\"^`*<>=;,+&()"

/-- A host whose escapes were undone. Brackets count even when they were escaped. -/
def decoded? (name : Bytes) : Except UrlFault Bytes :=
  match name with
  | 91 :: inner =>
    if inner.getLast? = some Byte.closeBracket then bracketed? inner.dropLast
    else .error .colonAddress
  | _ => if name.any forbidden.contains then .error .host else .ok name

/-- Reads a host that is not in brackets. -/
def plain? (s : Bytes) : Except UrlFault Bytes :=
  if s = [] then .error .noHost
  else match Dotted.numbers? s with
    | some address => .ok address.text
    | none =>
      match unescape? s with
      | none => .error .host
      | some name => decoded? name

end UrlHost

end HttpExchange
