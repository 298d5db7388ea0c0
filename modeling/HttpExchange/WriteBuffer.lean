import HttpExchange.Transport

/-!
# Coalescing writes

A write buffer gathers small writes in a memory of its own and hands them on when it is
full or flushed. The bytes lie in a scratch memory that several buffers may share one
after another; a buffer itself only knows how many of them are its own.

* `write` hands a text that could not fit straight on when nothing is pending.
* `drain` forgets what was pending, also when handing it on failed.
-/

namespace HttpExchange

/-- Memory for pending bytes, and whether a connection holds it. -/
structure Scratch where
  bytes : Bytes
  held : Bool
deriving DecidableEq, Repr

namespace Scratch

def empty : Scratch := ⟨[], false⟩

/-- The memory after `data` is stored at a place in it. -/
def store (m : Scratch) (place : Nat) (data : Bytes) : Scratch :=
  { m with bytes := Bytes.splice m.bytes place data }

end Scratch

structure WriteBuffer where
  capacity : Nat
  pending : Nat
deriving DecidableEq, Repr

namespace WriteBuffer

def empty (capacity : Nat) : WriteBuffer := ⟨capacity, 0⟩

/-- The pending bytes. -/
def contents (b : WriteBuffer) (m : Scratch) : Bytes := m.bytes.take b.pending

/-- A buffer over a stream, with its memory. -/
structure Over (σ : Type) where
  buffer : WriteBuffer
  scratch : Scratch
  wire : σ

namespace Over

variable {σ : Type}

/-- Takes as much of `data` as there is room for. -/
def fill (o : Over σ) (data : Bytes) : Nat × Over σ :=
  let n := min data.length (o.buffer.capacity - o.buffer.pending)
  (n, { o with
    buffer := { o.buffer with pending := o.buffer.pending + n }
    scratch := o.scratch.store o.buffer.pending (data.take n) })

/-- Hands the pending bytes on through `send`. -/
def drainBy (send : σ → Bytes → Except TransportFailure Unit × σ) (o : Over σ) :
    Except TransportFailure Unit × Over σ :=
  let (sent, wire) := send o.wire (o.buffer.contents o.scratch)
  (sent, { o with buffer := { o.buffer with pending := 0 }, wire })

variable [Transport σ]

def drain (o : Over σ) : Except TransportFailure Unit × Over σ :=
  o.drainBy (writeAll Transport.write)

def isFull (o : Over σ) : Bool := o.buffer.pending == o.buffer.capacity

/-- Drains a buffer that is full. -/
def drainFull (o : Over σ) : Except TransportFailure Unit × Over σ :=
  if o.isFull then o.drain else (.ok (), o)

def write (o : Over σ) (data : Bytes) : Except TransportFailure Nat × Over σ :=
  if data = [] then (.ok 0, o)
  else if o.buffer.pending = 0 ∧ o.buffer.capacity ≤ data.length then
    -- Nothing stands before it and it would not fit: it goes past the memory.
    let (accepted, wire) := Transport.write o.wire data
    (accepted, { o with wire })
  else
    match o.drainFull with
    | (.error failure, o) => (.error failure, o)
    | (.ok (), o) =>
      let (n, o) := o.fill data
      -- A buffer that has just become full does not wait for the next write.
      match o.drainFull with
      | (.error failure, o) => (.error failure, o)
      | (.ok (), o) => (.ok n, o)

def flush (o : Over σ) : Except TransportFailure Unit × Over σ :=
  match o.drain with
  | (.error failure, o) => (.error failure, o)
  | (.ok (), o) =>
    let (flushed, wire) := Transport.flush o.wire
    (flushed, { o with wire })

def read (o : Over σ) (n : Nat) : Except TransportFailure Bytes × Over σ :=
  let (received, wire) := Transport.read o.wire n
  (received, { o with wire })

/-- Closing drops what is pending. -/
def close (o : Over σ) : Over σ :=
  { o with buffer := { o.buffer with pending := 0 }, wire := Transport.close o.wire }

end Over

end WriteBuffer

end HttpExchange
