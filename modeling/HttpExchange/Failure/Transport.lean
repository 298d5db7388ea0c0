import HttpExchange.Numeral

/-!
# Failures of transports

A transport fails with one of nine errors and a text of its own.
-/

namespace HttpExchange

inductive TransportError
  | connectionFailed | dnsError | readError | writeError | timeout
  | connectionReset | unexpectedEnd | notConnected | tlsError
deriving DecidableEq, Repr

namespace TransportError

def all : List TransportError :=
  [connectionFailed, dnsError, readError, writeError, timeout, connectionReset, unexpectedEnd,
    notConnected, tlsError]

def name : TransportError → Bytes
  | connectionFailed => ascii "connection failed"
  | dnsError => ascii "dns error"
  | readError => ascii "read error"
  | writeError => ascii "write error"
  | timeout => ascii "timeout"
  | connectionReset => ascii "connection reset"
  | unexpectedEnd => ascii "unexpected end of stream"
  | notConnected => ascii "not connected"
  | tlsError => ascii "tls error"

def nameAt (n : Nat) : Bytes := (all[n]?.map name).getD (ascii "unknown")

def ofText? (s : Bytes) : Option TransportError := all.find? fun e => e.name == s

end TransportError

structure TransportFailure where
  error : TransportError
  message : Bytes
deriving DecidableEq, Repr

namespace TransportFailure

/-- A stream that accepts nothing of what it is offered. -/
def nothingAccepted : TransportFailure := ⟨.writeError, ascii "Write accepted zero bytes"⟩

/-- A body that is not as long as it said. -/
def wrongLength (written declared : Nat) : TransportFailure :=
  ⟨.writeError, ascii "Body wrote " ++ Numeral.decimal written ++ ascii " bytes but declared "
    ++ Numeral.decimal declared⟩

/-- A secure session that was closed. -/
def sessionClosed : TransportFailure := ⟨.notConnected, ascii "TLS not connected"⟩

end TransportFailure

end HttpExchange
