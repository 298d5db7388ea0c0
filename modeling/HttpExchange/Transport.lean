import HttpExchange.Failure.Transport

/-!
# Transports

A transport is a byte stream in both directions whose inbound side is finite: `unread`
bounds what can still arrive, and every read that returns bytes lowers it. A read returns
at most what was asked for and nothing at the end of the stream; a write accepts a part
of what it is offered.

A secure transport can also carry TLS: one handshake, and then records under it. What the
records hold is visible here, their encryption is not. It stands for what OpenSSL 3.0.18 makes of
the stream below it: TLS 1.3 without early data, and an end of the stream without a farewell is an
end like any other. Nothing else is assumed of it than that records hold no more than was asked
for and than was still to come.
-/

namespace HttpExchange

class Transport (σ : Type) where
  read : σ → Nat → Except TransportFailure Bytes × σ
  write : σ → Bytes → Except TransportFailure Nat × σ
  flush : σ → Except TransportFailure Unit × σ
  close : σ → σ
  unread : σ → Nat
  read_length_le {s s' : σ} {n : Nat} {bytes : Bytes} :
    read s n = (.ok bytes, s') → bytes.length ≤ n
  unread_of_read {s s' : σ} {n : Nat} {bytes : Bytes} :
    read s n = (.ok bytes, s') → unread s' + bytes.length ≤ unread s
  write_le {s s' : σ} {data : Bytes} {n : Nat} :
    write s data = (.ok n, s') → n ≤ data.length

/-- What a client shows at the start of a handshake: the name of the server, unless it is
addressed by number, and the identity and secret that the two sides share. -/
structure Hello where
  serverName : Option Bytes
  sharedKey : Option (Bytes × Bytes)
deriving DecidableEq, Repr

class SecureTransport (σ : Type) extends Transport σ where
  /-- Greets the peer and hears its answer, which is read `stage` bytes at a time. -/
  handshake : σ → (stage : Nat) → Hello → Except TransportFailure Unit × σ
  /-- Sends a text as records. -/
  sendRecords : σ → Bytes → Except TransportFailure Unit × σ
  /-- Takes at most `n` bytes out of one record. -/
  receiveRecord : σ → Nat → Except TransportFailure Bytes × σ
  /-- Tells the peer that nothing more will be sent; whether it was told. -/
  farewell : σ → Bool × σ
  receiveRecord_length_le {s s' : σ} {n : Nat} {bytes : Bytes} :
    receiveRecord s n = (.ok bytes, s') → bytes.length ≤ n
  unread_of_receiveRecord {s s' : σ} {n : Nat} {bytes : Bytes} :
    receiveRecord s n = (.ok bytes, s') →
      Transport.unread s' + bytes.length ≤ Transport.unread s

/-- Offers `data` again and again until all of it is accepted. A stream that accepts
nothing of a text that is not empty has failed. -/
def writeAll {s : Type} (write : s → Bytes → Except TransportFailure Nat × s) (stream : s)
    (data : Bytes) : Except TransportFailure Unit × s :=
  if data = [] then (.ok (), stream)
  else match write stream data with
    | (.error failure, stream) => (.error failure, stream)
    | (.ok 0, stream) => (.error .nothingAccepted, stream)
    | (.ok (n + 1), stream) => writeAll write stream (data.drop (n + 1))
termination_by data.length
decreasing_by
  have : 0 < data.length := List.length_pos_iff.2 (by assumption)
  simp only [List.length_drop]
  omega

end HttpExchange
