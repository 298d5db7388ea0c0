import HttpExchange.Address.Literal
import HttpExchange.Log
import HttpExchange.Seed
import HttpExchange.WriteBuffer

/-!
# Secure sessions

A TLS session over a secure transport. Opening one takes a step along the seeds of its
configuration, whether or not the handshake then succeeds.

Writes are coalesced as in a write buffer, with two differences: a text that could not
fit goes out whole, and a buffer that has become full is drained by the next write and
not by the one that filled it.
-/

namespace HttpExchange

/-- A seed, the sizes of the scratch buffers, and the key that is shared with the peer. -/
structure SecureConfig where
  seed : UInt64
  receiveCapacity : Nat
  sendCapacity : Nat
  sharedKey : Option (Bytes × Bytes)
deriving DecidableEq, Repr

namespace Hello

/-- Peers that are addressed by number, and names that are empty or too long, are not named. -/
def serverNameOf (server : Bytes) : Option Bytes :=
  let name := Bytes.untilNul server
  if Literal.isStrict name ∨ name = [] ∨ 255 < name.length then none else some name

def keyTooLong (key : Bytes × Bytes) : Bool := 255 < key.1.length || 512 < key.2.length

/-- The key to show: one that fits, under an identity that ends at its first NUL. An empty
secret is no key. -/
def usableKey (key : Option (Bytes × Bytes)) : Option (Bytes × Bytes) :=
  match key with
  | none => none
  | some (identity, secret) =>
    if keyTooLong (identity, secret) ∨ secret = [] then none
    else some (Bytes.untilNul identity, secret)

def make (server : Bytes) (config : SecureConfig) : Hello :=
  ⟨serverNameOf server, usableKey config.sharedKey⟩

end Hello

structure SecureSession where
  buffer : WriteBuffer
  isOpen : Bool
deriving DecidableEq, Repr

namespace SecureSession

variable {σ : Type} [SecureTransport σ]

/-! ## Opening -/

structure Opening (σ : Type) where
  session : Except TransportFailure SecureSession
  config : SecureConfig
  wire : σ
  journal : Journal

def keyWarning (config : SecureConfig) : Journal :=
  if config.sharedKey.any Hello.keyTooLong then
    [.note .warn [ascii "tls: pre-shared key identity or secret too long"]]
  else []

/-- Whatever fails in a handshake is a TLS error. -/
def start (wire : σ) (server : Bytes) (config : SecureConfig) : Opening σ :=
  let config := { config with seed := (Seed.step config.seed).next }
  let warnings := keyWarning config
  match SecureTransport.handshake wire config.receiveCapacity (Hello.make server config) with
  | (.error failure, wire) =>
    { session := .error ⟨.tlsError, failure.message⟩
      config, wire
      journal := warnings ++ [.note .warn
        [ascii "tls: handshake with ", server, ascii " failed: ", failure.message]] }
  | (.ok (), wire) =>
    { session := .ok ⟨.empty config.sendCapacity, true⟩
      config, wire
      journal := warnings ++ [.note .debug
        [ascii "tls: handshake with ", server, ascii " complete, ", ascii "TLSv1.3"]] }

/-! ## Use -/

abbrev Over := WriteBuffer.Over

/-- Hands the pending bytes on as records. -/
def drain (o : Over σ) : Except TransportFailure Unit × Over σ :=
  if o.buffer.pending = 0 then (.ok (), o)
  else o.drainBy SecureTransport.sendRecords

def drainFull (o : Over σ) : Except TransportFailure Unit × Over σ :=
  if o.isFull then drain o else (.ok (), o)

def write (o : Over σ) (data : Bytes) : Except TransportFailure Nat × Over σ :=
  if data = [] then (.ok 0, o)
  else if o.buffer.pending = 0 ∧ o.buffer.capacity ≤ data.length then
    match SecureTransport.sendRecords o.wire data with
    | (.error failure, wire) => (.error failure, { o with wire })
    | (.ok (), wire) => (.ok data.length, { o with wire })
  else
    match drainFull o with
    | (.error failure, o) => (.error failure, o)
    | (.ok (), o) =>
      let (n, o) := o.fill data
      (.ok n, o)

def flush (o : Over σ) : Except TransportFailure Unit × Over σ :=
  match drain o with
  | (.error failure, o) => (.error failure, o)
  | (.ok (), o) =>
    let (flushed, wire) := Transport.flush o.wire
    (flushed, { o with wire })

def read (o : Over σ) (n : Nat) : Except TransportFailure Bytes × Over σ :=
  if n = 0 then (.ok [], o)
  else
    let (received, wire) := SecureTransport.receiveRecord o.wire n
    (received, { o with wire })

theorem read_length_le {o o' : Over σ} {n : Nat} {bytes : Bytes}
    (h : read o n = (.ok bytes, o')) : bytes.length ≤ n := by
  unfold read at h
  split at h
  · simp only [Prod.mk.injEq, Except.ok.injEq] at h
    simp [← h.1]
  · rcases hr : SecureTransport.receiveRecord o.wire n with ⟨received, wire⟩
    rw [hr, Prod.mk.injEq] at h
    exact SecureTransport.receiveRecord_length_le (h.1 ▸ hr)

theorem unread_of_read {o o' : Over σ} {n : Nat} {bytes : Bytes}
    (h : read o n = (.ok bytes, o')) :
    Transport.unread o'.wire + bytes.length ≤ Transport.unread o.wire := by
  unfold read at h
  split at h
  · simp only [Prod.mk.injEq, Except.ok.injEq] at h
    simp [← h.1, ← h.2]
  · rcases hr : SecureTransport.receiveRecord o.wire n with ⟨received, wire⟩
    rw [hr, Prod.mk.injEq] at h
    rw [← h.2]
    exact SecureTransport.unread_of_receiveRecord (h.1 ▸ hr)

/-- The peer is told, and then the transport is closed. What is pending stays unsent. -/
def close (wire : σ) : σ × Journal :=
  let (told, wire) := SecureTransport.farewell wire
  (Transport.close wire,
    if told then [] else [.note .debug [ascii "tls: close_notify not delivered"]])

end SecureSession

end HttpExchange
