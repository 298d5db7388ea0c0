import HttpExchange.Proofs.Channel

/-!
# Outbound streams

A `Sink` is a wire that accepts whatever it is offered, a part at a time, and `Sink.On` says of
a link what was handed to it so far: what the wire has accepted, and behind it what is pending
in the write buffer. A sink is a channel that is never broken (`Sink.channel`), so what holds
of links on channels holds of links on sinks (`Sink.on_iff`).

Two more wires are channels. A `Ledger` may fail at any time and logs what it has accepted, and
a `Metered` wire accepts a part of every text, up to a budget of bytes.

* `Sink.on_of_accepted`: with nothing pending only what the wire has accepted matters.
* `Ledger.on_channel_iff`: what a wire has logged and what is pending behind it.
* `Metered.delivered_of_on`: with nothing pending the wire has accepted everything.
-/

namespace HttpExchange

/-- A wire that accepts everything, if not at once: `accepted w text` says that up to `w` it
has accepted `text`. -/
structure Sink {σ : Type} [SecureTransport σ]
    (offer : σ → Bytes → Except TransportFailure Nat × σ) where
  accepted : σ → Bytes → Prop
  accepts {w : σ} {text data : Bytes} : accepted w text → data ≠ [] →
    ∃ n w', offer w data = (.ok n, w') ∧ 0 < n ∧ n ≤ data.length ∧
      accepted w' (text ++ data.take n)
  flushes {w : σ} {text : Bytes} : accepted w text →
    ∃ w', Transport.flush w = (.ok (), w') ∧ accepted w' text

namespace Sink

variable {σ : Type} [SecureTransport σ] {offer : σ → Bytes → Except TransportFailure Nat × σ}
  {S : Sink offer} {text : Bytes}

/-- A sink is never broken. -/
def channel (S : Sink offer) : Channel offer where
  accepted := S.accepted
  broken _ _ _ := False
  broken_append _ h := h
  offers h hdata := by
    obtain ⟨n, w', call, hpos, -, hw'⟩ := S.accepts h hdata
    exact .succeeds n w' call ⟨fun hzero => absurd hzero (Nat.pos_iff_ne_zero.mp hpos),
      fun _ => hw'⟩
  flushes h := by
    obtain ⟨w', call, hw'⟩ := S.flushes h
    exact .succeeds () w' call hw'

/-! ## Links over a sink -/

/-- What a write buffer was given: what the wire has accepted and then what is pending. -/
structure Given (S : Sink offer) (o : WriteBuffer.Over σ) (text : Bytes) : Prop where
  proper : o.Proper
  split : ∃ sent, S.accepted o.wire sent ∧ text = sent ++ o.contents

/-- What a link was given, in the form it has: what the wire has accepted and what is pending.
A secure link is open. -/
def Handed (S : Sink offer) (l : Link σ) (text : Bytes) : Prop :=
  match l.connection.form with
  | .plain => S.accepted l.wire text
  | .buffered buffer => S.Given (l.buffering buffer) text
  | .secured session => session.isOpen = true ∧ S.Given (l.buffering session.buffer) text

/-- A link that sends to the sink was given the text. -/
structure On (S : Sink offer) (l : Link σ) (text : Bytes) : Prop where
  offer_eq : l.connection.form.offer = offer
  handed : S.Handed l text

variable {l : Link σ}

theorem on_iff : S.On l text ↔ S.channel.On l text := by
  obtain ⟨⟨form, phase, holdsLease⟩, scratch, wire, journal⟩ := l
  constructor
  · rintro ⟨hoffer, hhanded⟩
    cases form with
    | plain => exact ⟨hoffer, trivial, text, hhanded, (List.append_nil text).symm⟩
    | buffered buffer => exact ⟨hoffer, hhanded.proper, hhanded.split⟩
    | secured session => exact ⟨hoffer, ⟨hhanded.1, hhanded.2.proper⟩, hhanded.2.split⟩
  · rintro ⟨hoffer, hready, hsplit⟩
    cases form with
    | plain =>
        obtain ⟨sent, haccepted, rfl⟩ := hsplit
        refine ⟨hoffer, ?_⟩
        show S.accepted wire (sent ++ [])
        rwa [List.append_nil]
    | buffered buffer => exact ⟨hoffer, hready, hsplit⟩
    | secured session => exact ⟨hoffer, hready.1, hready.2, hsplit⟩

theorem On.accepted (h : S.On l text) (hflushed : l.Flushed) : S.accepted l.wire text :=
  (on_iff.mp h).accepted hflushed

/-- A sink that accepts bytes by way of a session finds it open. -/
theorem isOpen_of_accepted {session : SecureSession} {w : σ}
    {S : Sink ((Form.secured session).offer : σ → Bytes → _)} (h : S.accepted w text) :
    session.isOpen = true := by
  cases hopen : session.isOpen with
  | true => rfl
  | false =>
      obtain ⟨n, w', hcall, -⟩ := S.accepts h (List.cons_ne_nil 0 [])
      simp only [Form.offer, hopen] at hcall
      cases hcall

/-- **With nothing pending** a link was given what its wire has accepted, and nothing else
of it matters. -/
theorem on_of_accepted (hoffer : l.connection.form.offer = offer) (hflushed : l.Flushed)
    (haccepted : S.accepted l.wire text) : S.On l text := by
  have hopened {session : SecureSession} (hform : l.connection.form = .secured session) :
      session.isOpen = true := by
    rw [hform] at hoffer
    subst hoffer
    exact isOpen_of_accepted haccepted
  exact on_iff.mpr (Channel.on_of_accepted hoffer hopened hflushed haccepted)

end Sink

/-! ## Wires with a log -/

/-- A wire that logs what it was handed, in whatever parts it accepts it. -/
structure Ledger {σ : Type} [SecureTransport σ]
    (offer : σ → Bytes → Except TransportFailure Nat × σ) where
  delivered : σ → Bytes
  accepts {w w' : σ} {data : Bytes} {n : Nat} :
    offer w data = (.ok n, w') → delivered w' = delivered w ++ data.take n
  flushes {w w' : σ} : Transport.flush w = (.ok (), w') → delivered w' = delivered w

namespace Ledger

variable {σ : Type} [SecureTransport σ] {offer : σ → Bytes → Except TransportFailure Nat × σ}

/-- Nothing is said of a wire once a call on it has failed. -/
def channel (L : Ledger offer) : Channel offer where
  accepted w text := L.delivered w = text
  broken _ _ _ := True
  broken_append _ _ := trivial
  offers {w text data} h _ := by
    subst h
    cases hcall : offer w data with
    | mk outcome w' =>
        cases outcome with
        | error failure => exact .fails failure w' rfl trivial
        | ok n => exact .succeeds n w' rfl ⟨fun _ => trivial, fun _ => L.accepts hcall⟩
  flushes {w text} h := by
    subst h
    cases hcall : Transport.flush w with
    | mk outcome w' =>
        cases outcome with
        | error failure => exact .fails failure w' rfl trivial
        | ok value => exact .succeeds value w' rfl (L.flushes hcall)

/-- What was handed to a link: what its wire has logged and what is pending behind it. -/
theorem on_channel_iff {L : Ledger offer} {l : Link σ} {text : Bytes} :
    L.channel.On l text ↔
      l.connection.form.offer = offer ∧ l.Ready ∧ L.delivered l.wire ++ l.pending = text := by
  constructor
  · rintro ⟨hoffer, hready, sent, haccepted, rfl⟩
    exact ⟨hoffer, hready, congrArg (· ++ l.pending) haccepted⟩
  · rintro ⟨hoffer, hready, rfl⟩
    exact ⟨hoffer, hready, _, rfl, rfl⟩

end Ledger

/-! ## Wires with a budget -/

/-- A wire that accepts some of every text until it has accepted `budget` bytes, and nothing
after that. `meters` says of a state that this is so from there on. -/
structure Metered (σ : Type) [SecureTransport σ] (budget : Nat) extends
    Ledger (Transport.write : σ → Bytes → _) where
  meters : σ → Prop
  within {w : σ} : meters w → (delivered w).length ≤ budget
  takes {w : σ} {data : Bytes} : meters w → data ≠ [] → (delivered w).length < budget →
    ∃ n w', Transport.write w data = (.ok n, w') ∧ 0 < n ∧ meters w'
  refuses {w : σ} {data : Bytes} : meters w → data ≠ [] → (delivered w).length = budget →
    ∃ w', Transport.write w data = (.ok 0, w') ∧ meters w'
  settles {w : σ} : meters w → ∃ w', Transport.flush w = (.ok (), w') ∧ meters w'

namespace Metered

variable {σ : Type} [SecureTransport σ] {budget : Nat}

/-- What a wire has accepted that was handed a text: as much of it as it can. -/
structure Exhausted (M : Metered σ budget) (w : σ) (failure : TransportFailure) (text : Bytes) :
    Prop where
  failure_eq : failure = .nothingAccepted
  beyond : budget < text.length
  delivered_eq : M.delivered w = text.take budget

/-- A metered wire is broken when it was handed more than it can accept. -/
def channel (M : Metered σ budget) : Channel (Transport.write : σ → Bytes → _) where
  accepted w text := M.meters w ∧ M.delivered w = text
  broken := M.Exhausted
  broken_append {w failure text} more h := by
    have hbeyond := h.beyond
    refine ⟨h.failure_eq, by rw [List.length_append]; omega, ?_⟩
    rw [h.delivered_eq, List.take_append_of_le_length (by omega)]
  offers {w text data} h hdata := by
    obtain ⟨hmeters, rfl⟩ := h
    have hpos := List.length_pos_iff.mpr hdata
    rcases Nat.lt_or_eq_of_le (M.within hmeters) with hroom | hfull
    · obtain ⟨n, w', call, hn, hmeters'⟩ := M.takes hmeters hdata hroom
      exact .succeeds n w' call ⟨fun hzero => absurd hzero (Nat.pos_iff_ne_zero.mp hn),
        fun _ => ⟨hmeters', M.accepts call⟩⟩
    · obtain ⟨w', call, hmeters'⟩ := M.refuses hmeters hdata hfull
      refine .succeeds 0 w' call ⟨?_, fun hn => absurd hn (Nat.lt_irrefl 0)⟩
      intro _
      refine ⟨rfl, by rw [List.length_append]; omega, ?_⟩
      rw [M.accepts call, List.take_zero, List.append_nil, List.take_left' hfull]
  flushes {w text} h := by
    obtain ⟨hmeters, rfl⟩ := h
    obtain ⟨w', call, hmeters'⟩ := M.settles hmeters
    exact .succeeds () w' call ⟨hmeters', M.flushes call⟩

variable {M : Metered σ budget} {l : Link σ} {text : Bytes}

theorem on_flushed (hform : ∀ session, l.connection.form ≠ .secured session)
    (hflushed : l.Flushed) (hmeters : M.meters l.wire) :
    M.channel.On l (M.delivered l.wire) := by
  have hoffer : l.connection.form.offer (σ := σ) = Transport.write := by
    cases hl : l.connection.form with
    | plain => rfl
    | buffered buffer => rfl
    | secured session => exact absurd hl (hform session)
  exact Channel.on_of_accepted hoffer (fun hl => absurd hl (hform _)) hflushed ⟨hmeters, rfl⟩

theorem delivered_of_on (h : M.channel.On l text) (hflushed : l.Flushed) :
    text.length ≤ budget ∧ M.delivered l.wire = text.take budget := by
  obtain ⟨hmeters, rfl⟩ := h.accepted hflushed
  have hwithin := M.within hmeters
  exact ⟨hwithin, (List.take_of_length_le hwithin).symm⟩

end Metered

end HttpExchange
