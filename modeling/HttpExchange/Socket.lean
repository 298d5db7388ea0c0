import HttpExchange.Address
import HttpExchange.Socket.Stream

/-!
# Local sockets

A socket holds one end of a local stream, or nothing, or a descriptor that was never
connected or is no socket at all. The other end of its stream is held by a peer.
-/

namespace HttpExchange

inductive Descriptor
  | closed
  | stream (near : StreamEnd)
  | unconnected
  | notSocket
deriving DecidableEq, Repr

/-- A socket, and the end of its stream that is held by its peer. -/
structure Socket where
  descriptor : Descriptor
  far : Option StreamEnd
deriving DecidableEq, Repr

namespace Socket

def fresh : Socket := ⟨.closed, none⟩

def isOpen (s : Socket) : Bool := s.descriptor != .closed

def closedFailure : TransportFailure := ⟨.notConnected, ascii "Socket not connected"⟩

/-! ## Opening and closing -/

/-- The peer of a stream learns that the socket is gone. -/
def close (s : Socket) : Socket :=
  match s.descriptor with
  | .stream near => ⟨.closed, s.far.map near.hangUp⟩
  | _ => { s with descriptor := .closed }

/-- A socket on a new stream, whose other end the peer holds. -/
def pair : Socket := ⟨.stream .fresh, some .fresh⟩

/-- A socket on another descriptor. -/
def on (s : Socket) (descriptor : Descriptor) : Socket := { s.close with descriptor }

/-- Nobody listens. -/
def refusal (address : IpAddress) (port : UInt16) : TransportFailure :=
  ⟨.connectionFailed, ascii "Connection failed to " ++ address.text ++ ascii ":"
    ++ Numeral.decimal port.toNat ++ ascii ": " ++ SystemRefusal.text .connectionRefused⟩

/-! ## Use -/

def write (s : Socket) (data : Bytes) : Except TransportFailure Nat × Socket :=
  match s.descriptor with
  | .closed => (.error closedFailure, s)
  | .unconnected => (.error (SystemRefusal.writeFailure .brokenPipe), s)
  | .notSocket => (.error (SystemRefusal.writeFailure .notSocket), s)
  | .stream near =>
    if near.hungUp then (.error (SystemRefusal.writeFailure .brokenPipe), s)
    else (.ok data.length, { s with far := s.far.map fun far => far.deliver data })

def read (s : Socket) (n : Nat) : Except TransportFailure Bytes × Socket :=
  match s.descriptor with
  | .closed => (.error closedFailure, s)
  | .unconnected => (.error (SystemRefusal.readFailure .notConnected), s)
  | .notSocket => (.error (SystemRefusal.readFailure .notSocket), s)
  | .stream near =>
    let (received, near) := near.receive n
    (received.mapError SystemRefusal.readFailure, { s with descriptor := .stream near })

/-- Nothing is held back here. -/
def flush (s : Socket) : Except TransportFailure Unit :=
  if s.isOpen then .ok () else .error closedFailure

/-! ## The peer -/

def peerSend (s : Socket) (data : Bytes) : Socket :=
  match s.descriptor with
  | .stream near =>
    if s.far.isSome then { s with descriptor := .stream (near.deliver data) } else s
  | _ => s

/-- What the peer receives: nothing when there is no peer or nothing there for it. -/
def peerReceive (s : Socket) (n : Nat) : Option Bytes × Socket :=
  match s.far with
  | none => (none, s)
  | some far =>
    let (received, far) := far.receive n
    (received.toOption, { s with far := some far })

def peerClose (s : Socket) : Socket :=
  match s.descriptor, s.far with
  | .stream near, some far => ⟨.stream (far.hangUp near), none⟩
  | _, _ => { s with far := none }

/-! ## Steps -/

inductive Step
  | pair
  | connectLoopback (connector : Bool)
  | connect (address : IpAddress) (port : UInt16)
  | connector (address : IpAddress) (port : UInt16)
  | raw (descriptor : Descriptor)
  | config
  | move
  | write (data : Bytes)
  | read (n : Nat)
  | flush
  | close
  | peerSend (data : Bytes)
  | peerReceive (n : Nat)
  | peerClose
deriving DecidableEq, Repr

inductive Answer
  | done
  | ok
  | count (n : Nat)
  | data (bytes : Option Bytes)
  | refused (failure : TransportFailure)
deriving DecidableEq, Repr

/-- How many bytes are written to try a connection out. -/
def probeLength : Nat := 3

def perform (s : Socket) : Step → Answer × Socket
  | .pair => (.done, Socket.pair)
  | .connectLoopback connector => (if connector then .count probeLength else .ok, Socket.pair)
  | .connect address port => (.refused (refusal address port), s.close)
  | .connector address port => (.refused (refusal address port), s)
  | .raw descriptor => (.done, s.on descriptor)
  | .config | .move => (.done, s)
  | .write data =>
    match s.write data with
    | (.ok n, s) => (.count n, s)
    | (.error failure, s) => (.refused failure, s)
  | .read n =>
    match s.read n with
    | (.ok bytes, s) => (.data (some bytes), s)
    | (.error failure, s) => (.refused failure, s)
  | .flush =>
    match s.flush with
    | .ok () => (.ok, s)
    | .error failure => (.refused failure, s)
  | .close => (.done, s.close)
  | .peerSend data => (.done, s.peerSend data)
  | .peerReceive n =>
    let (received, s) := s.peerReceive n
    (.data received, s)
  | .peerClose => (.done, s.peerClose)

/-- The answer to every step, and whether the socket is open after it. -/
def run (s : Socket) : List Step → List (Answer × Bool)
  | [] => []
  | step :: steps =>
    let (answer, s) := s.perform step
    (answer, s.isOpen) :: s.run steps

end Socket

end HttpExchange
