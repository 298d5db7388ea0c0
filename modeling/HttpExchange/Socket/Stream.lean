import HttpExchange.Failure.Transport

/-!
# Local streams

A stream with two ends, neither of which ever waits. What one end sends lies in the inbox
of the other; an end that was hung up on still hands out what is in its inbox and then
reports the end of the stream.
-/

namespace HttpExchange

/-! ## Refusals of the system -/

inductive SystemRefusal
  | wouldBlock | reset | brokenPipe | notConnected | notSocket | connectionRefused
deriving DecidableEq, Repr

namespace SystemRefusal

def text : SystemRefusal → Bytes
  | wouldBlock => ascii "Resource temporarily unavailable"
  | reset => ascii "Connection reset by peer"
  | brokenPipe => ascii "Broken pipe"
  | notConnected => ascii "Transport endpoint is not connected"
  | notSocket => ascii "Socket operation on non-socket"
  | connectionRefused => ascii "Connection refused"

/-- The transport error of a refusal; one that has none of its own takes that of the call. -/
def error (call : TransportError) : SystemRefusal → TransportError
  | wouldBlock => .timeout
  | reset | brokenPipe => .connectionReset
  | notConnected => .notConnected
  | notSocket | connectionRefused => call

def readFailure (r : SystemRefusal) : TransportFailure :=
  ⟨r.error .readError, ascii "Read failed: " ++ r.text⟩

def writeFailure (r : SystemRefusal) : TransportFailure :=
  ⟨r.error .writeError, ascii "Write failed: " ++ r.text⟩

end SystemRefusal

/-! ## Streams with two ends -/

/-- One end of a stream. -/
structure StreamEnd where
  inbox : Bytes
  /-- The other end is gone. -/
  hungUp : Bool
  /-- The other end went with bytes in its inbox, which is told once. -/
  reset : Bool
deriving DecidableEq, Repr

namespace StreamEnd

def fresh : StreamEnd := ⟨[], false, false⟩

def receive (e : StreamEnd) (n : Nat) : Except SystemRefusal Bytes × StreamEnd :=
  if e.inbox ≠ [] then (.ok (e.inbox.take n), { e with inbox := e.inbox.drop n })
  else if e.reset then (.error .reset, { e with reset := false })
  else if e.hungUp then (.ok [], e)
  else (.error .wouldBlock, e)

/-- The other end after `data` was sent to it. -/
def deliver (e : StreamEnd) (data : Bytes) : StreamEnd := { e with inbox := e.inbox ++ data }

/-- The other end after this one is gone. -/
def hangUp (e other : StreamEnd) : StreamEnd :=
  { other with hungUp := true, reset := e.inbox ≠ [] }

end StreamEnd

end HttpExchange
