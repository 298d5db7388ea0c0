import HttpExchange.Address.Coloned
import HttpExchange.Failure.Transport

/-!
# Hosts that are addresses

Resolving a host without asking anyone: it must be an address itself, of either family
and in any spelling, with or without brackets. `isStrict` is the narrower test that
decides whether a TLS peer is addressed by name.
-/

namespace HttpExchange

namespace Literal

/-- The text between the brackets of a bracketed address. -/
def unbracket (host : Bytes) : Bytes :=
  if 2 < host.length ∧ host.head? = some Byte.openBracket
      ∧ host.getLast? = some Byte.closeBracket then
    (host.drop 1).dropLast
  else host

def unknownHost (name : Bytes) : TransportFailure :=
  ⟨.dnsError, ascii "Failed to resolve host: " ++ name ++ ascii " (Name or service not known)"⟩

def resolve (host : Bytes) : Except TransportFailure IpAddress :=
  let name := unbracket host
  let text := Bytes.untilNul name
  match Dotted.numbers? text <|> Coloned.scoped? text with
  | some address => .ok address
  | none => .error (unknownHost name)

/-- A dotted quad, or an IPv6 address without brackets. -/
def isStrict (host : Bytes) : Bool :=
  (Dotted.quad? host).isSome || (Coloned.groups? host).isSome

end Literal

end HttpExchange
