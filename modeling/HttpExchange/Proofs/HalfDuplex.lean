import HttpExchange.Proofs.Outbound

/-!
# Half-duplex servers

A server that speaks only when it is spoken to: what it has to say is decided by the bytes
it was sent, in whatever parts it accepts them, and it says it in whatever pieces it likes.
Seen from what it has said so far it is a sink, and seen from what it was sent so far it is a
feed of the rest of its reply.

`Server` is such a server for any reply, at any pace.
-/

namespace HttpExchange

/-- A wire to a server that replies to the bytes it was sent: `stands w sent taken` says that
at `w` it was sent `sent` and `taken` was read from it. Nothing is said of a read when there
is nothing to read. -/
structure HalfDuplex {σ : Type} [SecureTransport σ]
    (receive : σ → Nat → Except TransportFailure Bytes × σ)
    (offer : σ → Bytes → Except TransportFailure Nat × σ) (reply : Bytes → Bytes) where
  stands : σ → Bytes → Bytes → Prop
  accepts {w : σ} {sent taken data : Bytes} : stands w sent taken → data ≠ [] →
    ∃ n w', offer w data = (.ok n, w') ∧ 0 < n ∧ n ≤ data.length ∧
      stands w' (sent ++ data.take n) taken
  flushes {w : σ} {sent taken : Bytes} : stands w sent taken →
    ∃ w', Transport.flush w = (.ok (), w') ∧ stands w' sent taken
  answers {w : σ} {sent taken rest : Bytes} {n : Nat} : stands w sent taken →
    reply sent = taken ++ rest → rest ≠ [] → 0 < n →
    ∃ piece more w', receive w n = (.ok piece, w') ∧ piece ≠ [] ∧ piece.length ≤ n ∧
      rest = piece ++ more ∧ stands w' sent (taken ++ piece)

namespace HalfDuplex

variable {σ : Type} [SecureTransport σ]
  {receive : σ → Nat → Except TransportFailure Bytes × σ}
  {offer : σ → Bytes → Except TransportFailure Nat × σ} {reply : Bytes → Bytes}

def sink (D : HalfDuplex receive offer reply) (taken : Bytes) : Sink offer where
  accepted w sent := D.stands w sent taken
  accepts h hdata := D.accepts h hdata
  flushes h := D.flushes h

/-- What is still to come of the reply to what was sent. -/
def feed (D : HalfDuplex receive offer reply) (sent : Bytes) : Feed receive .silent where
  carries w rest := ∃ taken, D.stands w sent taken ∧ reply sent = taken ++ rest
  piece := by
    rintro w rest n ⟨taken, hstands, hreply⟩ hrest hn
    obtain ⟨piece, more, w', hcall, hne, hle, rfl, hstands'⟩ :=
      D.answers hstands hreply hrest hn
    refine ⟨piece, more, w', hcall, hne, hle, rfl, taken ++ piece, hstands', ?_⟩
    rw [hreply, List.append_assoc]
  finished h := by cases h
  broken h := by cases h

/-- An idle link with nothing pending, to a server that was sent `sent` and has said
`taken`. -/
structure Stands (D : HalfDuplex receive offer reply) (l : Link σ) (sent taken : Bytes) :
    Prop where
  idle : l.phase = .idle
  flushed : l.Flushed
  receive_eq : l.connection.form.receive = receive
  offer_eq : l.connection.form.offer = offer
  stands : D.stands l.wire sent taken

variable {D : HalfDuplex receive offer reply} {l : Link σ} {sent taken : Bytes}

theorem Stands.on_sink (h : D.Stands l sent taken) : (D.sink taken).On l sent :=
  Sink.on_of_accepted h.offer_eq h.flushed h.stands

/-- With nothing more to come, the whole reply was taken. -/
theorem stands_of_on_feed (h : (D.feed sent).On l []) : D.stands l.wire sent (reply sent) := by
  obtain ⟨taken, hstands, hreply⟩ := h.carries
  rw [hreply, List.append_nil]
  exact hstands

end HalfDuplex

/-! ## Servers of any reply -/

/-- A server that hears and says at most `pace + 1` bytes at once. -/
structure Server (reply : Bytes → Bytes) where
  pace : Nat
  heard : Bytes
  said : Bytes

namespace Server

variable {reply : Bytes → Bytes}

/-- What it has to say. -/
def ready (s : Server reply) : Bytes := (reply s.heard).drop s.said.length

def say (s : Server reply) (n : Nat) : Except TransportFailure Bytes × Server reply :=
  let piece := s.ready.take (min n (s.pace + 1))
  (.ok piece, { s with said := s.said ++ piece })

def hear (s : Server reply) (data : Bytes) : Except TransportFailure Nat × Server reply :=
  let n := min data.length (s.pace + 1)
  (.ok n, { s with heard := s.heard ++ data.take n })

theorem length_of_say {s s' : Server reply} {n : Nat} {piece : Bytes}
    (h : s.say n = (.ok piece, s')) :
    piece.length ≤ n ∧ s'.ready.length + piece.length ≤ s.ready.length := by
  cases h
  simp only [ready, List.length_append, List.length_take, List.length_drop]
  omega

instance : SecureTransport (Server reply) where
  read := say
  write := hear
  flush s := (.ok (), s)
  close s := s
  unread s := s.ready.length
  read_length_le h := (length_of_say h).1
  unread_of_read h := (length_of_say h).2
  write_le {s s' data n} h := by
    cases h
    exact Nat.min_le_left ..
  handshake s _ _ := (.ok (), s)
  sendRecords s data := (.ok (), { s with heard := s.heard ++ data })
  receiveRecord := say
  farewell s := (true, s)
  receiveRecord_length_le h := (length_of_say h).1
  unread_of_receiveRecord h := (length_of_say h).2

/-- Such a server is half-duplex on a bare or a coalescing connection. -/
def halfDuplex (reply : Bytes → Bytes) :
    HalfDuplex (Transport.read : Server reply → Nat → _) Transport.write reply where
  stands s sent taken := s.heard = sent ∧ s.said = taken
  accepts := by
    rintro s sent taken data ⟨rfl, rfl⟩ hdata
    have := List.length_pos_iff.mpr hdata
    exact ⟨min data.length (s.pace + 1), _, rfl, by omega, Nat.min_le_left .., rfl, rfl⟩
  flushes h := ⟨_, rfl, h⟩
  answers := by
    rintro s sent taken rest n ⟨rfl, rfl⟩ hreply hrest hn
    have hready : s.ready = rest := by
      rw [ready, hreply, List.drop_left]
    have := List.length_pos_iff.mpr hrest
    refine ⟨rest.take (min n (s.pace + 1)), rest.drop (min n (s.pace + 1)),
      { s with said := s.said ++ rest.take (min n (s.pace + 1)) }, ?_, ?_, ?_,
      (List.take_append_drop ..).symm, rfl, rfl⟩
    · rw [← hready]
      rfl
    · refine List.ne_nil_of_length_pos ?_
      rw [List.length_take]
      omega
    · rw [List.length_take]
      omega

end Server

end HttpExchange
