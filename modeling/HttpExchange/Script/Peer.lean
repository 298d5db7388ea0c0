import HttpExchange.Script

/-!
# Scripted TLS peers

A script as the far end of a handshake. A peer accepts the identity it knows with its
secret; after that every segment is a record, split where it is too long for one, and the
failures that are set hold for every record. A far end that is no peer is greeted in vain.
-/

namespace HttpExchange

namespace Script

/-- A handshake that failed, with its reason. -/
def handshakeFailure (reason : String) : TransportFailure :=
  ⟨.tlsError, ascii "TLS handshake failed" ++ ascii reason⟩

/-- A far end that ends the stream instead of answering. -/
def noAnswer : TransportFailure := handshakeFailure " (ssl error 5)"

/-- A far end that answers, but not in TLS. -/
def foreignAnswer : TransportFailure :=
  handshakeFailure ": error:0A00010B:SSL routines::wrong version number (ssl error 5)"

def wrongSecret : TransportFailure :=
  handshakeFailure ": error:0A000417:SSL routines::sslv3 alert illegal parameter (ssl error 6)"

def unknownIdentity : TransportFailure :=
  handshakeFailure ": error:0A000410:SSL routines::sslv3 alert handshake failure (ssl error 6)"

/-- The size of a greeting; its bytes are not shown. -/
def greetingLength : Nat := 240

/-- The first bytes of an answer, from which it is seen not to be TLS. -/
def answerLength : Nat := 5

/-- Hears an answer of at least `wanted` bytes. -/
def hear (s : Script) (stage wanted : Nat) : TransportFailure × Script :=
  if _h : wanted = 0 then (foreignAnswer, s)
  else match s.read (if stage = 0 then wanted else stage) with
    | (.error failure, s) => (failure, s)
    | (.ok [], s) => (noAnswer, s)
    | (.ok (_ :: bytes), s) => s.hear stage (wanted - 1 - bytes.length)
termination_by wanted

/-- A far end that is no TLS peer is greeted in vain. -/
def greetInVain (s : Script) (stage : Nat) : TransportFailure × Script :=
  match writeAll write s (List.replicate greetingLength 0) with
  | (.error failure, s) => (failure, s)
  | (.ok (), s) =>
    match s.flush with
    | (.error failure, s) => (failure, s)
    | (.ok (), s) => s.hear stage answerLength

/-- Whether a peer accepts what a client shows. -/
def verdict (peer : Peer) (hello : Hello) : Except TransportFailure Unit :=
  match hello.sharedKey with
  | none => .error unknownIdentity
  | some (identity, secret) =>
    if identity ≠ peer.identity then .error unknownIdentity
    else if secret ≠ peer.secret then .error wrongSecret
    else .ok ()

def handshake (s : Script) (stage : Nat) (hello : Hello) : Except TransportFailure Unit × Script :=
  let s := { s with secure := some s.trace }
  match s.peer with
  | none =>
    let (failure, s) := s.greetInVain stage
    (.error failure, s)
  | some peer =>
    match verdict peer hello with
    | .error failure => (.error failure, s)
    | .ok () =>
      (.ok (), { s with secure := some { s.trace with
        handshaken := true
        serverName := hello.serverName.getD []
        current := []
        ended := false } })

def recordLimit : Nat := 16384

/-- The records that a text is sent as. -/
def records (data : Bytes) : List Bytes :=
  if data.length ≤ recordLimit then [data]
  else data.take recordLimit :: records (data.drop recordLimit)
termination_by data.length
decreasing_by simp only [List.length_drop, recordLimit] at *; omega

def sendRecords (s : Script) (data : Bytes) : Except TransportFailure Unit × Script :=
  match s.failWrite with
  | some error => (.error (writeFailure error), s)
  | none =>
    (.ok (), { s with
      secure := some { s.trace with records := (records data).reverse ++ s.trace.records } })

/-- Takes at most `n` bytes of a record that has arrived and keeps the others. -/
def serve (s : Script) (record : Bytes) (n : Nat) : Except TransportFailure Bytes × Script :=
  (.ok (record.take n), { s with secure := some { s.trace with current := record.drop n } })

/-- A new record is fetched when the current one is used up. -/
def receiveRecord (s : Script) (n : Nat) : Except TransportFailure Bytes × Script :=
  if s.current ≠ [] then s.serve s.current n
  else if s.trace.ended then (.ok [], s)
  else match s.failRead with
    | some error => (.error (readFailure error), s)
    | none =>
      match takeInbound recordLimit s.inbound with
      | ([], inbound) =>
        (.ok [], { s with
          inbound
          secure := some { s.trace with ended := s.peer.any Peer.notifies } })
      | (record, inbound) => { s with inbound }.serve record n

def farewell (s : Script) : Bool × Script :=
  if s.failWrite.isSome then (false, s)
  else (true, { s with secure := some { s.trace with toldGoodbye := true } })

instance : SecureTransport Script where
  handshake := handshake
  sendRecords := sendRecords
  receiveRecord := receiveRecord
  farewell := farewell
  receiveRecord_length_le {s s' n bytes} h := by
    unfold receiveRecord at h
    split at h
    · simp only [serve, Prod.mk.injEq, Except.ok.injEq] at h
      rw [← h.1, List.length_take]
      omega
    · split at h
      · simp only [Prod.mk.injEq, Except.ok.injEq] at h
        simp [← h.1]
      · split at h
        · simp at h
        · split at h
          · simp only [Prod.mk.injEq, Except.ok.injEq] at h
            simp [← h.1]
          · simp only [serve, Prod.mk.injEq, Except.ok.injEq] at h
            rw [← h.1, List.length_take]
            omega
  unread_of_receiveRecord {s s' n bytes} h := by
    show s'.unread + bytes.length ≤ s.unread
    unfold receiveRecord at h
    split at h
    · simp only [serve, Prod.mk.injEq, Except.ok.injEq] at h
      rw [← h.1, ← h.2]
      simp only [unread, current, Option.map_some, Option.getD_some, List.length_take,
        List.length_drop]
      omega
    · rename_i hc
      simp only [ne_eq, Decidable.not_not] at hc
      split at h
      · simp only [Prod.mk.injEq, Except.ok.injEq] at h
        simp [← h.1, ← h.2]
      · split at h
        · simp at h
        · have hl := length_takeInbound recordLimit s.inbound
          split at h
          · rename_i inbound ht
            simp only [Prod.mk.injEq, Except.ok.injEq] at h
            rw [ht] at hl
            have hcur : s.trace.current = [] := by
              cases hs : s.secure with
              | none => simp [trace, hs, SecureTrace.empty]
              | some t => simpa [trace, current, hs] using hc
            rw [← h.1, ← h.2]
            simp only [unread, current, Option.map_some, Option.getD_some, hcur, List.length_nil]
            simp only [List.length_nil] at hl
            omega
          · rename_i record inbound hne ht
            simp only [serve, Prod.mk.injEq, Except.ok.injEq] at h
            rw [ht] at hl
            rw [← h.1, ← h.2]
            simp only [unread, current, Option.map_some, Option.getD_some, List.length_take,
              List.length_drop]
            simp only at hl
            omega

end Script

end HttpExchange
