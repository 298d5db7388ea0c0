import HttpExchange.Transport

/-!
# Scripted far ends

A script is a transport whose far end is fixed in advance: the segments that arrive, how
much each call moves, which calls fail. It counts the calls and keeps what it accepted.

* A read never crosses the end of a segment, and it skips empty segments.
* A failure that is set starts once the calls it allows have been made.
* The far end may be a TLS peer, which knows one identity with its secret.
-/

namespace HttpExchange

/-- A TLS peer, and whether it says goodbye before the stream ends. -/
structure Peer where
  identity : Bytes
  secret : Bytes
  notifies : Bool
deriving DecidableEq, Repr

/-- What a far end has seen of TLS. -/
structure SecureTrace where
  handshaken : Bool
  serverName : Bytes
  /-- The records that arrived, the last one first. -/
  records : List Bytes
  toldGoodbye : Bool
  /-- The rest of the record that the client is reading. -/
  current : Bytes
  /-- The client has heard the goodbye of the peer. -/
  ended : Bool
deriving DecidableEq, Repr

def SecureTrace.empty : SecureTrace := ⟨false, [], [], false, [], false⟩

structure Script where
  inbound : List Bytes
  maxRead : Option Nat
  maxWrite : Option Nat
  /-- How many bytes are still accepted. -/
  writeBudget : Option Nat
  failRead : Option TransportError
  failWrite : Option TransportError
  failFlush : Option TransportError
  /-- The calls after which a failure that is set starts. -/
  readsAllowed : Nat
  writesAllowed : Nat
  peer : Option Peer
  reads : Nat
  writes : Nat
  flushes : Nat
  /-- What was accepted, the last piece first. -/
  accepted : List Bytes
  closed : Bool
  secure : Option SecureTrace
deriving DecidableEq, Repr

namespace Script

def empty : Script :=
  ⟨[], none, none, none, none, none, none, 0, 0, none, 0, 0, 0, [], false, none⟩

def readFailure (error : TransportError) : TransportFailure :=
  ⟨error, ascii "scripted read failure"⟩

def writeFailure (error : TransportError) : TransportFailure :=
  ⟨error, ascii "scripted write failure"⟩

def flushFailure (error : TransportError) : TransportFailure :=
  ⟨error, ascii "scripted flush failure"⟩

/-- The failure of a call before which `calls` were made. -/
def due? (error : Option TransportError) (allowed calls : Nat) : Option TransportError :=
  if allowed ≤ calls then error else none

/-- The smaller of a wish and a limit, if there is a limit. -/
def atMost (limit : Option Nat) (n : Nat) : Nat := (limit.map (min n)).getD n

/-- Takes at most `n` bytes of the next segment that is not empty. -/
def takeInbound (n : Nat) : List Bytes → Bytes × List Bytes
  | [] => ([], [])
  | [] :: rest => takeInbound n rest
  | (b :: bytes) :: rest => ((b :: bytes).take n, (b :: bytes).drop n :: rest)

def read (s : Script) (n : Nat) : Except TransportFailure Bytes × Script :=
  match due? s.failRead s.readsAllowed s.reads with
  | some error => (.error (readFailure error), { s with reads := s.reads + 1 })
  | none =>
    let (bytes, inbound) := takeInbound (atMost s.maxRead n) s.inbound
    (.ok bytes, { s with reads := s.reads + 1, inbound })

def write (s : Script) (data : Bytes) : Except TransportFailure Nat × Script :=
  match due? s.failWrite s.writesAllowed s.writes with
  | some error => (.error (writeFailure error), { s with writes := s.writes + 1 })
  | none =>
    let n := atMost s.writeBudget (atMost s.maxWrite data.length)
    (.ok n, { s with
      writes := s.writes + 1
      accepted := data.take n :: s.accepted
      writeBudget := s.writeBudget.map (· - n) })

def flush (s : Script) : Except TransportFailure Unit × Script :=
  let counted := { s with flushes := s.flushes + 1 }
  match s.failFlush with
  | some error => (.error (flushFailure error), counted)
  | none => (.ok (), counted)

def close (s : Script) : Script := { s with closed := true }

/-- What the far end has seen of TLS so far. -/
def trace (s : Script) : SecureTrace := s.secure.getD .empty

/-- The rest of the record that is being read. -/
def current (s : Script) : Bytes := (s.secure.map SecureTrace.current).getD []

/-- The bytes that have not been read. -/
def unread (s : Script) : Nat := s.inbound.flatten.length + s.current.length

theorem atMost_le (limit : Option Nat) (n : Nat) : atMost limit n ≤ n := by
  cases limit with
  | none => exact Nat.le_refl n
  | some limit => exact Nat.min_le_left n limit

theorem takeInbound_length_le (n : Nat) (inbound : List Bytes) :
    (takeInbound n inbound).1.length ≤ n := by
  fun_induction takeInbound n inbound with
  | case1 => simp
  | case2 rest ih => exact ih
  | case3 b bytes rest => simp only [List.length_take]; omega

theorem length_takeInbound (n : Nat) (inbound : List Bytes) :
    (takeInbound n inbound).2.flatten.length + (takeInbound n inbound).1.length
      = inbound.flatten.length := by
  fun_induction takeInbound n inbound with
  | case1 => simp
  | case2 rest ih => simpa using ih
  | case3 b bytes rest =>
    simp only [List.flatten_cons, List.length_append, List.length_drop, List.length_take]
    omega

instance : Transport Script where
  read := read
  write := write
  flush := flush
  close := close
  unread := unread
  read_length_le {s s' n bytes} h := by
    unfold read at h
    split at h
    · simp at h
    · simp only [Prod.mk.injEq, Except.ok.injEq] at h
      rw [← h.1]
      exact Nat.le_trans (takeInbound_length_le _ _) (atMost_le _ _)
  unread_of_read {s s' n bytes} h := by
    unfold read at h
    split at h
    · simp at h
    · simp only [Prod.mk.injEq, Except.ok.injEq] at h
      have := length_takeInbound (atMost s.maxRead n) s.inbound
      rw [← h.1, ← h.2]
      simp only [unread, current]
      omega
  write_le {s s' data n} h := by
    unfold write at h
    split at h
    · simp at h
    · simp only [Prod.mk.injEq, Except.ok.injEq] at h
      rw [← h.1]
      exact Nat.le_trans (atMost_le _ _) (atMost_le _ _)

end Script

end HttpExchange
