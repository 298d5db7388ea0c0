import HttpExchange.Link

/-!
# Inbound streams

What arrives on a connection is a text that the transport cuts into pieces as it likes: a
read takes a piece of what is still to come, not empty and not longer than was asked for.
A `Feed` is a transport seen that way, with the way in which its stream ends. Every read of
a link goes to its wire alone (`Link.read_eq`), so a feed of the wire feeds the link.

* `Feed.on_read`: a read of a link takes a piece and leaves the rest.
* `Feed.On.enter`, `Feed.On.log`: phase and journal do not matter to what is still to come.
-/

namespace HttpExchange

/-- Behind a piece that is taken off a text the rest is shorter. -/
theorem Bytes.length_rest_lt {piece : Bytes} (h : piece ≠ []) (rest : Bytes) :
    rest.length < (piece ++ rest).length := by
  have hpos : 0 < piece.length := List.length_pos_iff.mpr h
  rw [List.length_append]
  omega

section Receiving

variable {σ : Type} [SecureTransport σ]

/-- What a read on a connection of some form gets from the wire. -/
def Form.receive (form : Form) (wire : σ) (n : Nat) : Except TransportFailure Bytes × σ :=
  match form with
  | .plain | .buffered _ => Transport.read wire n
  | .secured session =>
    if session.isOpen then
      if n = 0 then (.ok [], wire) else SecureTransport.receiveRecord wire n
    else (.error .sessionClosed, wire)

/-- A read of a link changes its wire and nothing else. -/
theorem Link.read_eq (l : Link σ) (n : Nat) :
    l.read n = ((l.connection.form.receive l.wire n).1,
      { l with wire := (l.connection.form.receive l.wire n).2 }) := by
  obtain ⟨⟨form, phase, holdsLease⟩, scratch, wire, journal⟩ := l
  cases form with
  | plain => rfl
  | buffered buffer => rfl
  | secured session =>
      obtain ⟨buffer, isOpen⟩ := session
      cases isOpen with
      | false => rfl
      | true =>
          by_cases hn : n = 0
          · subst hn; rfl
          · simp [Link.read, Form.receive, SecureSession.read, Link.buffering, hn]

end Receiving

/-- What reads come to once the bytes of a stream are used up. -/
inductive Ending
  | finished
  | broken (failure : TransportFailure)
  /-- Nothing is said of such reads; whoever relies on it must not make one. -/
  | silent
deriving DecidableEq, Repr

/-- A transport as a stream of bytes that is cut into pieces: `carries w text` says that at
`w` the bytes of `text` are still to come. -/
structure Feed {σ : Type} (receive : σ → Nat → Except TransportFailure Bytes × σ)
    (ending : Ending) where
  carries : σ → Bytes → Prop
  piece {w : σ} {text : Bytes} {n : Nat} : carries w text → text ≠ [] → 0 < n →
    ∃ piece rest w', receive w n = (.ok piece, w') ∧ piece ≠ [] ∧ piece.length ≤ n ∧
      text = piece ++ rest ∧ carries w' rest
  finished {w : σ} {n : Nat} : ending = .finished → carries w [] → 0 < n →
    ∃ w', receive w n = (.ok [], w') ∧ carries w' []
  broken {w : σ} {n : Nat} {failure : TransportFailure} : ending = .broken failure →
    carries w [] → 0 < n → ∃ w', receive w n = (.error failure, w') ∧ carries w' []

namespace Feed

variable {σ : Type} [SecureTransport σ]
  {receive : σ → Nat → Except TransportFailure Bytes × σ} {ending : Ending}
  {F : Feed receive ending} {l : Link σ} {text : Bytes} {n : Nat}

/-- On a link that reads through the feed, the bytes of `text` are still to come. -/
structure On (F : Feed receive ending) (l : Link σ) (text : Bytes) : Prop where
  receive_eq : l.connection.form.receive = receive
  carries : F.carries l.wire text

theorem On.enter (h : F.On l text) (phase : Phase) : F.On (l.enter phase) text :=
  ⟨h.receive_eq, h.carries⟩

theorem On.log (h : F.On l text) (level : Level) (texts : List Bytes) :
    F.On (l.log level texts) text :=
  ⟨h.receive_eq, h.carries⟩

theorem on_read (h : F.On l text) (htext : text ≠ []) (hn : 0 < n) :
    ∃ piece rest wire, l.read n = (.ok piece, { l with wire }) ∧ piece ≠ [] ∧
      piece.length ≤ n ∧ text = piece ++ rest ∧ F.On { l with wire } rest := by
  obtain ⟨piece, rest, wire, hread, hne, hle, heq, hrest⟩ := F.piece h.carries htext hn
  refine ⟨piece, rest, wire, ?_, hne, hle, heq, h.receive_eq, hrest⟩
  rw [Link.read_eq, h.receive_eq, hread]

theorem on_read_finished (h : F.On l []) (hend : ending = .finished) (hn : 0 < n) :
    ∃ wire, l.read n = (.ok [], { l with wire }) ∧ F.On { l with wire } [] := by
  obtain ⟨wire, hread, hrest⟩ := F.finished hend h.carries hn
  refine ⟨wire, ?_, h.receive_eq, hrest⟩
  rw [Link.read_eq, h.receive_eq, hread]

theorem on_read_broken (h : F.On l []) {failure : TransportFailure}
    (hend : ending = .broken failure) (hn : 0 < n) :
    ∃ wire, l.read n = (.error failure, { l with wire }) ∧ F.On { l with wire } [] := by
  obtain ⟨wire, hread, hrest⟩ := F.broken hend h.carries hn
  refine ⟨wire, ?_, h.receive_eq, hrest⟩
  rw [Link.read_eq, h.receive_eq, hread]

end Feed

end HttpExchange
