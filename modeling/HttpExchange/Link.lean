import HttpExchange.Connection

/-!
# Links

A link is a connection together with what it works on: the transport, the memory behind
its write buffer and the journal. Every operation on a connection is a function on links.

* `read_length_le`: a read hands out at most what was asked for.
* `unread_of_read`: what is handed out is gone from what can still arrive.
-/

namespace HttpExchange

structure Link (σ : Type) where
  connection : Connection
  scratch : Scratch
  wire : σ
  journal : Journal

namespace Link

variable {σ : Type}

def phase (l : Link σ) : Phase := l.connection.phase

def enter (l : Link σ) (phase : Phase) : Link σ :=
  { l with connection := { l.connection with phase } }

def log (l : Link σ) (level : Level) (texts : List Bytes) : Link σ :=
  { l with journal := l.journal ++ [.note level texts] }

/-! ## The write buffer of a link -/

/-- A write buffer of the link, over its memory and its transport. -/
def buffering (l : Link σ) (buffer : WriteBuffer) : WriteBuffer.Over σ := ⟨buffer, l.scratch, l.wire⟩

/-- The link after its coalescing form has worked on buffer, memory and transport. -/
def putBuffered (l : Link σ) (o : WriteBuffer.Over σ) : Link σ :=
  { l with
    connection := { l.connection with form := .buffered o.buffer }
    scratch := o.scratch
    wire := o.wire }

/-- The same for the secure form. -/
def putSecured (l : Link σ) (o : WriteBuffer.Over σ) : Link σ :=
  { l with
    connection := { l.connection with form := .secured ⟨o.buffer, true⟩ }
    scratch := o.scratch
    wire := o.wire }

/-! ## Operations -/

variable [SecureTransport σ]

/-- What can still arrive on a link. -/
def unread (l : Link σ) : Nat := Transport.unread l.wire

def read (l : Link σ) (n : Nat) : Except TransportFailure Bytes × Link σ :=
  match l.connection.form with
  | .plain | .buffered _ =>
    let (received, wire) := Transport.read l.wire n
    (received, { l with wire })
  | .secured session =>
    if session.isOpen then
      let (received, o) := SecureSession.read (l.buffering session.buffer) n
      (received, { l with wire := o.wire })
    else (.error .sessionClosed, l)

def write (l : Link σ) (data : Bytes) : Except TransportFailure Nat × Link σ :=
  match l.connection.form with
  | .plain =>
    let (accepted, wire) := Transport.write l.wire data
    (accepted, { l with wire })
  | .buffered buffer =>
    let (accepted, o) := (l.buffering buffer).write data
    (accepted, l.putBuffered o)
  | .secured session =>
    if session.isOpen then
      let (accepted, o) := SecureSession.write (l.buffering session.buffer) data
      (accepted, l.putSecured o)
    else (.error .sessionClosed, l)

def flush (l : Link σ) : Except TransportFailure Unit × Link σ :=
  match l.connection.form with
  | .plain =>
    let (flushed, wire) := Transport.flush l.wire
    (flushed, { l with wire })
  | .buffered buffer =>
    let (flushed, o) := (l.buffering buffer).flush
    (flushed, l.putBuffered o)
  | .secured session =>
    if session.isOpen then
      let (flushed, o) := SecureSession.flush (l.buffering session.buffer)
      (flushed, l.putSecured o)
    else (.error .sessionClosed, l)

def writeAll (l : Link σ) (data : Bytes) : Except TransportFailure Unit × Link σ :=
  HttpExchange.writeAll write l data

/-- Closes the stream in its own form. -/
def closeStream (l : Link σ) : Link σ :=
  match l.connection.form with
  | .plain => { l with wire := Transport.close l.wire }
  | .buffered buffer => l.putBuffered (l.buffering buffer).close
  | .secured session =>
    if session.isOpen then
      let (wire, journal) := SecureSession.close l.wire
      { l with
        connection := { l.connection with form := .secured { session with isOpen := false } }
        wire
        journal := l.journal ++ journal }
    else { l with wire := Transport.close l.wire }

/-- Gives back the memory the client has lent, if it was lent to this connection. -/
def releaseLease (l : Link σ) : Link σ :=
  if l.connection.holdsLease then
    { l with
      connection := { l.connection with holdsLease := false }
      scratch := { l.scratch with held := false } }
  else l

def close (l : Link σ) : Link σ := (l.closeStream.enter .closed).releaseLease

theorem read_length_le {l l' : Link σ} {n : Nat} {bytes : Bytes}
    (h : l.read n = (.ok bytes, l')) : bytes.length ≤ n := by
  unfold read at h
  split at h
  · rcases hr : Transport.read l.wire n with ⟨received, wire⟩
    rw [hr, Prod.mk.injEq] at h
    exact Transport.read_length_le (h.1 ▸ hr)
  · rcases hr : Transport.read l.wire n with ⟨received, wire⟩
    rw [hr, Prod.mk.injEq] at h
    exact Transport.read_length_le (h.1 ▸ hr)
  · rename_i session _
    split at h
    · rcases hr : SecureSession.read (l.buffering session.buffer) n with ⟨received, o⟩
      rw [hr, Prod.mk.injEq] at h
      exact SecureSession.read_length_le (h.1 ▸ hr)
    · simp at h

theorem unread_of_read {l l' : Link σ} {n : Nat} {bytes : Bytes}
    (h : l.read n = (.ok bytes, l')) : l'.unread + bytes.length ≤ l.unread := by
  unfold read at h
  split at h
  · rcases hr : Transport.read l.wire n with ⟨received, wire⟩
    rw [hr, Prod.mk.injEq] at h
    rw [← h.2]
    exact Transport.unread_of_read (h.1 ▸ hr)
  · rcases hr : Transport.read l.wire n with ⟨received, wire⟩
    rw [hr, Prod.mk.injEq] at h
    rw [← h.2]
    exact Transport.unread_of_read (h.1 ▸ hr)
  · rename_i session _
    split at h
    · rcases hr : SecureSession.read (l.buffering session.buffer) n with ⟨received, o⟩
      rw [hr, Prod.mk.injEq] at h
      rw [← h.2]
      exact SecureSession.unread_of_read (o := l.buffering session.buffer) (h.1 ▸ hr)
    · simp at h

end Link

end HttpExchange
