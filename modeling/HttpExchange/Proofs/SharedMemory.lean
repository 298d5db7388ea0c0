import HttpExchange.Proofs.Handover
import HttpExchange.Proofs.Lease
import HttpExchange.Proofs.ReuseGuard
import HttpExchange.Proofs.ScriptWire

/-!
# Connections in one memory

A connection works in the front of its memory, as far as its pending bytes go. Links that
differ at most behind these (`Link.Alike`) cannot be told apart by anything that is done with
them: `Link.simulation_alike` is about what they are made of, and `Usage.Similar.alike_step`
about all calls. So what another connection does in the same memory matters exactly as far as
it changes the pending bytes.
-/

namespace HttpExchange

/-! ## What lies behind the pending bytes -/

/-- The write buffer of a form that has one. -/
def Form.buffer? : Form → Option WriteBuffer
  | .plain => none
  | .buffered buffer => some buffer
  | .secured session => some session.buffer

namespace WriteBuffer.Over

variable {σ : Type} {o p : Over σ}

/-- Buffers that differ at most in what lies in their memories behind the pending bytes. -/
structure Alike (o p : Over σ) : Prop where
  buffer_eq : p.buffer = o.buffer
  wire_eq : p.wire = o.wire
  contents_eq : p.contents = o.contents
  proper : o.Proper
  proper' : p.Proper

/-- Texts that go past the buffers leave them alike. -/
theorem Alike.wire (h : Alike o p) (wire : σ) :
    Alike ⟨o.buffer, o.scratch, wire⟩ ⟨o.buffer, p.scratch, wire⟩ := by
  have hcontents := h.contents_eq
  have hproper' := h.proper'
  obtain ⟨buffer, scratch, wire'⟩ := p
  obtain rfl : buffer = o.buffer := h.buffer_eq
  exact ⟨rfl, rfl, hcontents, ⟨h.proper.pending_le, h.proper.stored⟩,
    ⟨hproper'.pending_le, hproper'.stored⟩⟩

/-- With nothing pending the whole memory may differ. -/
theorem alike_of_pending {buffer : WriteBuffer} (h : buffer.pending = 0) (m m' : Scratch)
    (wire : σ) : Alike ⟨buffer, m, wire⟩ ⟨buffer, m', wire⟩ := by
  have hle (n : Nat) : buffer.pending ≤ n := h ▸ Nat.zero_le n
  refine ⟨rfl, rfl, ?_, ⟨hle _, hle _⟩, ⟨hle _, hle _⟩⟩
  rw [contents_eq_nil h, contents_eq_nil h]

theorem Alike.drainBy (h : Alike o p)
    (send : σ → Bytes → Except TransportFailure Unit × σ) :
    Agree Alike (o.drainBy send) (p.drainBy send) := by
  have hcontents : p.buffer.contents p.scratch = o.buffer.contents o.scratch := h.contents_eq
  unfold Over.drainBy
  rw [hcontents, h.wire_eq, h.buffer_eq]
  exact .of_eq _ (alike_of_pending rfl _ _ _)

theorem Alike.fill (h : Alike o p) (data : Bytes) : Agree Alike (o.fill data) (p.fill data) := by
  have hfits : p.fits data = o.fits data := by
    unfold fits
    rw [h.buffer_eq]
  refine ⟨o.fits data, (o.fill data).2, (p.fill data).2, rfl, ?_, ?_, h.wire_eq, ?_,
    proper_fill h.proper data, proper_fill h.proper' data⟩
  · rw [← hfits]
    rfl
  · show (⟨p.buffer.capacity, p.buffer.pending + p.fits data⟩ : WriteBuffer) =
      ⟨o.buffer.capacity, o.buffer.pending + o.fits data⟩
    rw [hfits, h.buffer_eq]
  · rw [contents_fill h.proper', contents_fill h.proper, hfits, h.contents_eq]

/-- A buffer that is drained when it is full is drained on both sides. -/
theorem Alike.drainFull {drain : Over σ → Except TransportFailure Unit × Over σ} (h : Alike o p)
    (hdrain : Agree Alike (drain o) (drain p)) :
    Agree Alike (if o.isFull then drain o else (.ok (), o))
      (if p.isFull then drain p else (.ok (), p)) := by
  have hfull : p.isFull = o.isFull := by
    unfold isFull
    rw [h.buffer_eq]
  rw [hfull]
  split
  · exact hdrain
  · exact .of_eq _ h

variable [SecureTransport σ]

theorem Alike.write (h : Alike o p) (data : Bytes) : Agree Alike (o.write data) (p.write data) := by
  unfold Over.write
  rw [h.buffer_eq, h.wire_eq]
  split
  · exact .of_eq _ h
  split
  · exact .of_eq _ (h.wire _)
  · obtain ⟨outcome, o₁, p₁, ho, hp, h₁⟩ := h.drainFull (h.drainBy (writeAll Transport.write))
    unfold Over.drainFull Over.drain
    rw [ho, hp]
    cases outcome with
    | error failure => exact .of_eq _ h₁
    | ok value =>
        obtain ⟨n, o₂, p₂, ho₂, hp₂, h₂⟩ := h₁.fill data
        dsimp only
        rw [ho₂, hp₂]
        obtain ⟨outcome, o₃, p₃, ho₃, hp₃, h₃⟩ :=
          h₂.drainFull (h₂.drainBy (writeAll Transport.write))
        dsimp only
        rw [ho₃, hp₃]
        cases outcome with
        | error failure => exact .of_eq _ h₃
        | ok value => exact .of_eq _ h₃

theorem Alike.flush (h : Alike o p) : Agree Alike o.flush p.flush := by
  obtain ⟨outcome, o₁, p₁, ho, hp, h₁⟩ := h.drainBy (writeAll Transport.write)
  unfold Over.flush Over.drain
  rw [ho, hp]
  cases outcome with
  | error failure => exact .of_eq _ h₁
  | ok value =>
      dsimp only
      rw [h₁.wire_eq, h₁.buffer_eq]
      exact .of_eq _ (h₁.wire _)

/-! ### Under TLS -/

theorem Alike.drainSecure (h : Alike o p) :
    Agree Alike (SecureSession.drain o) (SecureSession.drain p) := by
  unfold SecureSession.drain
  rw [h.buffer_eq]
  split
  · exact .of_eq _ h
  · exact h.drainBy _

theorem Alike.writeSecure (h : Alike o p) (data : Bytes) :
    Agree Alike (SecureSession.write o data) (SecureSession.write p data) := by
  unfold SecureSession.write
  rw [h.buffer_eq, h.wire_eq]
  split
  · exact .of_eq _ h
  split
  · split
    · exact .of_eq _ (h.wire _)
    · exact .of_eq _ (h.wire _)
  · obtain ⟨outcome, o₁, p₁, ho, hp, h₁⟩ := h.drainFull h.drainSecure
    unfold SecureSession.drainFull
    rw [ho, hp]
    cases outcome with
    | error failure => exact .of_eq _ h₁
    | ok value =>
        obtain ⟨n, o₂, p₂, ho₂, hp₂, h₂⟩ := h₁.fill data
        dsimp only
        rw [ho₂, hp₂]
        exact .of_eq _ h₂

theorem Alike.flushSecure (h : Alike o p) :
    Agree Alike (SecureSession.flush o) (SecureSession.flush p) := by
  obtain ⟨outcome, o₁, p₁, ho, hp, h₁⟩ := h.drainSecure
  unfold SecureSession.flush
  rw [ho, hp]
  cases outcome with
  | error failure => exact .of_eq _ h₁
  | ok value =>
      dsimp only
      rw [h₁.wire_eq, h₁.buffer_eq]
      exact .of_eq _ (h₁.wire _)

end WriteBuffer.Over

namespace Link

variable {σ : Type} {l k : Link σ}

theorem fits_iff {buffer : WriteBuffer} (h : l.connection.form.buffer? = some buffer) :
    l.Fits ↔ (l.buffering buffer).Proper := by
  obtain ⟨⟨form, phase, holdsLease⟩, scratch, wire, journal⟩ := l
  cases form <;> cases h <;> exact Iff.rfl

theorem pending_of_buffer? {buffer : WriteBuffer} (h : l.connection.form.buffer? = some buffer) :
    l.pending = (l.buffering buffer).contents := by
  obtain ⟨⟨form, phase, holdsLease⟩, scratch, wire, journal⟩ := l
  cases form <;> cases h <;> rfl

/-- Links that differ at most in what lies in their memories behind the pending bytes. -/
structure Alike (l k : Link σ) : Prop where
  connection_eq : k.connection = l.connection
  wire_eq : k.wire = l.wire
  journal_eq : k.journal = l.journal
  pending_eq : k.pending = l.pending
  fits : l.Fits
  fits' : k.Fits

theorem Alike.self (h : l.Fits) : Alike l l := ⟨rfl, rfl, rfl, rfl, h, h⟩

/-- Over another memory that shows the same in its front. -/
theorem Alike.over (h : Alike l k) {memory : Scratch} (hfits : Fits { k with scratch := memory })
    (hpending : Link.pending { k with scratch := memory } = k.pending) :
    Alike l { k with scratch := memory } :=
  ⟨h.connection_eq, h.wire_eq, h.journal_eq, hpending.trans h.pending_eq, h.fits, hfits⟩

theorem Alike.buffering (h : Alike l k) {buffer : WriteBuffer}
    (hbuffer : l.connection.form.buffer? = some buffer) :
    (l.buffering buffer).Alike (k.buffering buffer) := by
  have hbuffer' : k.connection.form.buffer? = some buffer := by
    rw [h.connection_eq]
    exact hbuffer
  refine ⟨rfl, h.wire_eq, ?_, (fits_iff hbuffer).mp h.fits, (fits_iff hbuffer').mp h.fits'⟩
  rw [← pending_of_buffer? hbuffer, ← pending_of_buffer? hbuffer']
  exact h.pending_eq

theorem Alike.putBuffered (h : Alike l k) {o p : WriteBuffer.Over σ} (hop : o.Alike p) :
    Alike (l.putBuffered o) (k.putBuffered p) := by
  refine ⟨?_, hop.wire_eq, h.journal_eq, ?_, hop.proper, hop.proper'⟩
  · simp only [Link.putBuffered, h.connection_eq, hop.buffer_eq]
  · exact hop.contents_eq

theorem Alike.putSecured (h : Alike l k) {o p : WriteBuffer.Over σ} (hop : o.Alike p) :
    Alike (l.putSecured o) (k.putSecured p) := by
  refine ⟨?_, hop.wire_eq, h.journal_eq, ?_, hop.proper, hop.proper'⟩
  · simp only [Link.putSecured, h.connection_eq, hop.buffer_eq]
  · exact hop.contents_eq

/-- Alike are links whose forms and memories are those of links that are alike. -/
theorem Alike.of_eq (h : Alike l k) {l' k' : Link σ} (hconnection : k'.connection = l'.connection)
    (hform : l'.connection.form = l.connection.form) (hscratch : l'.scratch = l.scratch)
    (hscratch' : k'.scratch = k.scratch) (hwire : k'.wire = l'.wire)
    (hjournal : k'.journal = l'.journal) : Alike l' k' := by
  have hform' : k'.connection.form = k.connection.form := by
    rw [hconnection, hform, h.connection_eq]
  refine ⟨hconnection, hwire, hjournal, ?_, fits_of_eq hform hscratch h.fits,
    fits_of_eq hform' hscratch' h.fits'⟩
  rw [Link.pending_eq hform' hscratch', Link.pending_eq hform hscratch, h.pending_eq]

variable [SecureTransport σ]

/-- **Links that are alike cannot be told apart**: nothing looks behind the pending bytes. -/
theorem simulation_alike : Simulation (Alike (σ := σ)) where
  phase_eq h := congrArg Connection.phase h.connection_eq
  read {l k} h n := by
    rw [read_eq, read_eq, h.connection_eq, h.wire_eq]
    exact .of_eq _ (h.of_eq rfl rfl rfl rfl rfl h.journal_eq)
  enter {l k} h phase := by
    refine h.of_eq ?_ rfl rfl rfl h.wire_eq h.journal_eq
    simp only [Link.enter, h.connection_eq]
  log {l k} h level texts := by
    refine h.of_eq h.connection_eq rfl rfl rfl h.wire_eq ?_
    simp only [Link.log, h.journal_eq]
  write {l k} h data := by
    unfold Link.write
    rw [h.connection_eq]
    cases hform : l.connection.form with
    | plain =>
        dsimp only
        rw [h.wire_eq]
        exact .of_eq _ (h.of_eq rfl rfl rfl rfl rfl h.journal_eq)
    | buffered buffer =>
        have halike := h.buffering (congrArg Form.buffer? hform)
        obtain ⟨outcome, o, p, ho, hp, hop⟩ := halike.write data
        dsimp only
        rw [ho, hp]
        exact .of_eq _ (h.putBuffered hop)
    | secured session =>
        have halike := h.buffering (congrArg Form.buffer? hform)
        obtain ⟨outcome, o, p, ho, hp, hop⟩ := halike.writeSecure data
        dsimp only
        rw [ho, hp]
        split
        · exact .of_eq _ (h.putSecured hop)
        · exact .of_eq _ h
  flush {l k} h := by
    unfold Link.flush
    rw [h.connection_eq]
    cases hform : l.connection.form with
    | plain =>
        dsimp only
        rw [h.wire_eq]
        exact .of_eq _ (h.of_eq rfl rfl rfl rfl rfl h.journal_eq)
    | buffered buffer =>
        have halike := h.buffering (congrArg Form.buffer? hform)
        obtain ⟨outcome, o, p, ho, hp, hop⟩ := halike.flush
        dsimp only
        rw [ho, hp]
        exact .of_eq _ (h.putBuffered hop)
    | secured session =>
        have halike := h.buffering (congrArg Form.buffer? hform)
        obtain ⟨outcome, o, p, ho, hp, hop⟩ := halike.flushSecure
        dsimp only
        rw [ho, hp]
        split
        · exact .of_eq _ (h.putSecured hop)
        · exact .of_eq _ h

/-! ### Closing -/

omit [SecureTransport σ] in
theorem Alike.releaseLease (h : Alike l k) : Alike l.releaseLease k.releaseLease := by
  obtain ⟨⟨form, phase, holdsLease⟩, scratch, wire, journal⟩ := l
  obtain ⟨connection, scratch', wire', journal'⟩ := k
  obtain rfl : connection = _ := h.connection_eq
  cases holdsLease with
  | false => exact h
  | true =>
      refine ⟨rfl, h.wire_eq, h.journal_eq, ?_, h.fits.over (Nat.le_refl _),
        h.fits'.over (Nat.le_refl _)⟩
      have hpending := h.pending_eq
      cases form <;> exact hpending

theorem Alike.closeStream (h : Alike l k) : Alike l.closeStream k.closeStream := by
  unfold Link.closeStream
  rw [h.connection_eq]
  cases hform : l.connection.form with
  | plain => exact h.of_eq rfl rfl rfl rfl (congrArg Transport.close h.wire_eq) h.journal_eq
  | buffered buffer =>
      refine h.putBuffered ?_
      have hwire : (k.buffering buffer).wire = (l.buffering buffer).wire := h.wire_eq
      unfold WriteBuffer.Over.close
      rw [hwire]
      exact WriteBuffer.Over.alike_of_pending rfl _ _ _
  | secured session =>
      dsimp only
      split
      · have hbuffer := h.buffering (congrArg Form.buffer? hform)
        rw [h.wire_eq, h.journal_eq]
        exact ⟨rfl, rfl, rfl, hbuffer.contents_eq,
          ⟨hbuffer.proper.pending_le, hbuffer.proper.stored⟩,
          ⟨hbuffer.proper'.pending_le, hbuffer.proper'.stored⟩⟩
      · exact h.of_eq rfl rfl rfl rfl (congrArg Transport.close h.wire_eq) h.journal_eq

theorem Alike.close (h : Alike l k) : Alike l.close k.close :=
  (simulation_alike.enter h.closeStream .closed).releaseLease

end Link

/-- **Connections that are alike stay alike**, whatever is done with both of them. -/
theorem Usage.Similar.alike_step {σ : Type} [SecureTransport σ] {u v : Usage σ}
    (h : Similar Link.Alike u v) (hkind : u.link.connection.kind ≠ .plain) (call : Call) :
    Similar Link.Alike (u.step call) (v.step call) := by
  refine h.step Link.simulation_alike call ?_ ?_
  · intro _
    exact h.link.close
  · intro capacity _
    have hkind' : v.link.connection.kind ≠ .plain := by
      rw [h.link.connection_eq]
      exact hkind
    rw [Link.intoBuffered_of_kind hkind, Link.intoBuffered_of_kind hkind']
    exact h.link

end HttpExchange
