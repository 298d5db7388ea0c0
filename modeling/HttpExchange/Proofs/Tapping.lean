import HttpExchange.Proofs.Carrying
import HttpExchange.Proofs.Simulation

/-!
# Tapped wires

Any transport can be tapped: a `Tapped` wire makes every call of the transport below it and
keeps a log of the calls with their answers. What goes on above it does not notice
(`Link.simulation_tapped`), so what is to be said of the calls that something makes of its
transport is said of the log.

Two general facts lead there. Links whose wires cannot be told apart cannot be told apart
(`Link.simulation_over`). And what every call on the wire carries on is carried on by writes of a
link, in whatever form it sends (`Link.written_over`).
-/

namespace HttpExchange

/-! ## Wires that cannot be told apart -/

section Simulations

variable {σ τ : Type} [SecureTransport σ] [SecureTransport τ]

/-- Calls on related wires have the same answers and leave them related. -/
structure WireSimulation (W : σ → τ → Prop) : Prop where
  read {w : σ} {v : τ} : W w v → ∀ n, Agree W (Transport.read w n) (Transport.read v n)
  write {w : σ} {v : τ} : W w v → ∀ data, Agree W (Transport.write w data) (Transport.write v data)
  flush {w : σ} {v : τ} : W w v → Agree W (Transport.flush w) (Transport.flush v)
  sendRecords {w : σ} {v : τ} : W w v → ∀ data,
    Agree W (SecureTransport.sendRecords w data) (SecureTransport.sendRecords v data)
  receiveRecord {w : σ} {v : τ} : W w v → ∀ n,
    Agree W (SecureTransport.receiveRecord w n) (SecureTransport.receiveRecord v n)

/-- One buffer over related wires. -/
structure WriteBuffer.Over.Similar (W : σ → τ → Prop) (o : Over σ) (p : Over τ) : Prop where
  buffer_eq : p.buffer = o.buffer
  scratch_eq : p.scratch = o.scratch
  wire : W o.wire p.wire

namespace WriteBuffer.Over.Similar

variable {W : σ → τ → Prop} {o : Over σ} {p : Over τ}

omit [SecureTransport σ] [SecureTransport τ] in
theorem drainBy {send : σ → Bytes → Except TransportFailure Unit × σ}
    {send' : τ → Bytes → Except TransportFailure Unit × τ} (h : Similar W o p)
    (hsend : ∀ data, Agree W (send o.wire data) (send' p.wire data)) :
    Agree (Similar W) (o.drainBy send) (p.drainBy send') := by
  obtain ⟨outcome, w, v, hw, hv, hwv⟩ := hsend (o.buffer.contents o.scratch)
  unfold Over.drainBy
  rw [h.buffer_eq, h.scratch_eq, hw, hv]
  exact .of_eq _ ⟨rfl, rfl, hwv⟩

omit [SecureTransport σ] [SecureTransport τ] in
theorem drainFull {drain : Over σ → Except TransportFailure Unit × Over σ}
    {drain' : Over τ → Except TransportFailure Unit × Over τ} (h : Similar W o p)
    (hdrain : Agree (Similar W) (drain o) (drain' p)) :
    Agree (Similar W) (if o.isFull then drain o else (.ok (), o))
      (if p.isFull then drain' p else (.ok (), p)) := by
  have hfull : p.isFull = o.isFull := by
    unfold isFull
    rw [h.buffer_eq]
  rw [hfull]
  split
  · exact hdrain
  · exact .of_eq _ h

omit [SecureTransport σ] [SecureTransport τ] in
theorem fill (h : Similar W o p) (data : Bytes) :
    Agree (Similar W) (o.fill data) (p.fill data) := by
  unfold Over.fill
  rw [h.buffer_eq, h.scratch_eq]
  exact .of_eq _ ⟨rfl, rfl, h.wire⟩

variable (hW : WireSimulation W)
include hW

theorem write (h : Similar W o p) (data : Bytes) :
    Agree (Similar W) (o.write data) (p.write data) := by
  unfold Over.write
  rw [h.buffer_eq]
  split
  · exact .of_eq _ h
  split
  · obtain ⟨outcome, w, v, hw, hv, hwv⟩ := hW.write h.wire data
    rw [hw, hv]
    exact .of_eq _ ⟨rfl, h.scratch_eq, hwv⟩
  · have hdrain {o : Over σ} {p : Over τ} (h : Similar W o p) :
        Agree (Similar W) o.drainFull p.drainFull :=
      h.drainFull (h.drainBy fun data => agree_writeAll hW.write h.wire data)
    obtain ⟨failure | value, o₁, p₁, ho, hp, h₁⟩ := hdrain h
    · rw [ho, hp]
      exact .of_eq _ h₁
    · obtain ⟨n, o₂, p₂, ho₂, hp₂, h₂⟩ := h₁.fill data
      obtain ⟨failure | value, o₃, p₃, ho₃, hp₃, h₃⟩ := hdrain h₂
      · simp only [ho, hp, ho₂, hp₂, ho₃, hp₃]
        exact .of_eq _ h₃
      · simp only [ho, hp, ho₂, hp₂, ho₃, hp₃]
        exact .of_eq _ h₃

/-- After a buffer was drained the wire is flushed. -/
theorem flushBy {drain : Over σ → Except TransportFailure Unit × Over σ}
    {drain' : Over τ → Except TransportFailure Unit × Over τ}
    (hdrain : Agree (Similar W) (drain o) (drain' p)) :
    Agree (Similar W)
      (match drain o with
        | (.error failure, o) => (.error failure, o)
        | (.ok (), o) =>
          ((Transport.flush o.wire).1, { o with wire := (Transport.flush o.wire).2 }))
      (match drain' p with
        | (.error failure, p) => (.error failure, p)
        | (.ok (), p) =>
          ((Transport.flush p.wire).1, { p with wire := (Transport.flush p.wire).2 })) := by
  obtain ⟨failure | value, o₁, p₁, ho, hp, h₁⟩ := hdrain
  · rw [ho, hp]
    exact .of_eq _ h₁
  · obtain ⟨outcome, w, v, hw, hv, hwv⟩ := hW.flush h₁.wire
    simp only [ho, hp, hw, hv]
    exact .of_eq _ ⟨h₁.buffer_eq, h₁.scratch_eq, hwv⟩

theorem flush (h : Similar W o p) : Agree (Similar W) o.flush p.flush :=
  flushBy hW (h.drainBy fun data => agree_writeAll hW.write h.wire data)

theorem drainSecure (h : Similar W o p) :
    Agree (Similar W) (SecureSession.drain o) (SecureSession.drain p) := by
  unfold SecureSession.drain
  rw [h.buffer_eq]
  split
  · exact .of_eq _ h
  · exact h.drainBy (hW.sendRecords h.wire)

theorem writeSecure (h : Similar W o p) (data : Bytes) :
    Agree (Similar W) (SecureSession.write o data) (SecureSession.write p data) := by
  unfold SecureSession.write
  rw [h.buffer_eq]
  split
  · exact .of_eq _ h
  split
  · obtain ⟨failure | value, w, v, hw, hv, hwv⟩ := hW.sendRecords h.wire data
    · rw [hw, hv]
      exact .of_eq _ ⟨rfl, h.scratch_eq, hwv⟩
    · rw [hw, hv]
      exact .of_eq _ ⟨rfl, h.scratch_eq, hwv⟩
  · unfold SecureSession.drainFull
    obtain ⟨failure | value, o₁, p₁, ho, hp, h₁⟩ := h.drainFull (h.drainSecure hW)
    · rw [ho, hp]
      exact .of_eq _ h₁
    · obtain ⟨n, o₂, p₂, ho₂, hp₂, h₂⟩ := h₁.fill data
      simp only [ho, hp, ho₂, hp₂]
      exact .of_eq _ h₂

theorem flushSecure (h : Similar W o p) :
    Agree (Similar W) (SecureSession.flush o) (SecureSession.flush p) :=
  flushBy hW (h.drainSecure hW)

end WriteBuffer.Over.Similar

/-- Links that are equal but for their wires, which are related. -/
structure Link.Over (W : σ → τ → Prop) (l : Link σ) (k : Link τ) : Prop where
  connection_eq : k.connection = l.connection
  scratch_eq : k.scratch = l.scratch
  journal_eq : k.journal = l.journal
  wire : W l.wire k.wire

variable {W : σ → τ → Prop} {l : Link σ} {k : Link τ}

omit [SecureTransport σ] [SecureTransport τ] in
theorem Link.over_iff : Link.Over W l k ↔ k.connection = l.connection ∧ k.scratch = l.scratch ∧
    W l.wire k.wire ∧ k.journal = l.journal :=
  ⟨fun h => ⟨h.connection_eq, h.scratch_eq, h.wire, h.journal_eq⟩,
    fun ⟨hconnection, hscratch, hwire, hjournal⟩ => ⟨hconnection, hscratch, hjournal, hwire⟩⟩

omit [SecureTransport σ] [SecureTransport τ] in
theorem Link.Over.buffering (h : Link.Over W l k) (buffer : WriteBuffer) :
    (l.buffering buffer).Similar W (k.buffering buffer) :=
  ⟨rfl, h.scratch_eq, h.wire⟩

omit [SecureTransport σ] [SecureTransport τ] in
theorem Link.Over.putBuffered (h : Link.Over W l k) {o : WriteBuffer.Over σ}
    {p : WriteBuffer.Over τ} (hop : o.Similar W p) :
    Link.Over W (l.putBuffered o) (k.putBuffered p) := by
  refine ⟨?_, hop.scratch_eq, h.journal_eq, hop.wire⟩
  simp only [Link.putBuffered, h.connection_eq, hop.buffer_eq]

omit [SecureTransport σ] [SecureTransport τ] in
theorem Link.Over.putSecured (h : Link.Over W l k) {o : WriteBuffer.Over σ}
    {p : WriteBuffer.Over τ} (hop : o.Similar W p) :
    Link.Over W (l.putSecured o) (k.putSecured p) := by
  refine ⟨?_, hop.scratch_eq, h.journal_eq, hop.wire⟩
  simp only [Link.putSecured, h.connection_eq, hop.buffer_eq]

theorem WireSimulation.receive (hW : WireSimulation W) {w : σ} {v : τ} (h : W w v) (form : Form)
    (n : Nat) : Agree W (form.receive w n) (form.receive v n) := by
  cases form with
  | plain => exact hW.read h n
  | buffered buffer => exact hW.read h n
  | secured session =>
      unfold Form.receive
      dsimp only
      split
      · split
        · exact .of_eq _ h
        · exact hW.receiveRecord h n
      · exact .of_eq _ h

/-- **Links over wires that cannot be told apart** cannot be told apart. -/
theorem Link.simulation_over (hW : WireSimulation W) : Link.Simulation (Link.Over W) where
  phase_eq h := congrArg Connection.phase h.connection_eq
  enter h phase := by
    refine ⟨?_, h.scratch_eq, h.journal_eq, h.wire⟩
    simp only [Link.enter, h.connection_eq]
  log h level texts := by
    refine ⟨h.connection_eq, h.scratch_eq, ?_, h.wire⟩
    simp only [Link.log, h.journal_eq]
  read {l k} h n := by
    obtain ⟨outcome, w, v, hw, hv, hwv⟩ := hW.receive h.wire l.connection.form n
    rw [Link.read_eq, Link.read_eq, h.connection_eq, hw, hv]
    exact .of_eq _ ⟨rfl, h.scratch_eq, h.journal_eq, hwv⟩
  write {l k} h data := by
    unfold Link.write
    rw [h.connection_eq]
    split
    · obtain ⟨outcome, w, v, hw, hv, hwv⟩ := hW.write h.wire data
      rw [hw, hv]
      exact .of_eq _ ⟨rfl, h.scratch_eq, h.journal_eq, hwv⟩
    · rename_i buffer _
      obtain ⟨outcome, o, p, ho, hp, hop⟩ := (h.buffering buffer).write hW data
      rw [ho, hp]
      exact .of_eq _ (h.putBuffered hop)
    · rename_i session _
      obtain ⟨outcome, o, p, ho, hp, hop⟩ := (h.buffering session.buffer).writeSecure hW data
      rw [ho, hp]
      split
      · exact .of_eq _ (h.putSecured hop)
      · exact .of_eq _ h
  flush {l k} h := by
    unfold Link.flush
    rw [h.connection_eq]
    split
    · obtain ⟨outcome, w, v, hw, hv, hwv⟩ := hW.flush h.wire
      rw [hw, hv]
      exact .of_eq _ ⟨rfl, h.scratch_eq, h.journal_eq, hwv⟩
    · rename_i buffer _
      obtain ⟨outcome, o, p, ho, hp, hop⟩ := (h.buffering buffer).flush hW
      rw [ho, hp]
      exact .of_eq _ (h.putBuffered hop)
    · rename_i session _
      obtain ⟨outcome, o, p, ho, hp, hop⟩ := (h.buffering session.buffer).flushSecure hW
      rw [ho, hp]
      split
      · exact .of_eq _ (h.putSecured hop)
      · exact .of_eq _ h

end Simulations

/-! ## What every call carries on -/

section Carrying

variable {σ : Type} [SecureTransport σ]

/-- A relation between wires that whatever sends carries on. -/
structure WireWritten (R : σ → σ → Prop) : Prop where
  refl (w : σ) : R w w
  trans {w₁ w₂ w₃ : σ} : R w₁ w₂ → R w₂ w₃ → R w₁ w₃
  write (w : σ) (data : Bytes) : R w (Transport.write w data).2
  sendRecords (w : σ) (data : Bytes) : R w (SecureTransport.sendRecords w data).2

namespace WireWritten

variable {R : σ → σ → Prop} (h : WireWritten R)
include h

theorem drain (o : WriteBuffer.Over σ) : R o.wire o.drain.2.wire :=
  writeAll_carries h.refl h.trans h.write o.wire o.contents

theorem drainFull (o : WriteBuffer.Over σ) : R o.wire o.drainFull.2.wire := by
  unfold WriteBuffer.Over.drainFull
  split
  · exact h.drain o
  · exact h.refl o.wire

theorem writeBuffered (o : WriteBuffer.Over σ) (data : Bytes) :
    R o.wire (o.write data).2.wire := by
  have hfirst := h.drainFull o
  unfold WriteBuffer.Over.write
  split
  · exact h.refl o.wire
  split
  · exact h.write o.wire data
  · split <;> rename_i heq <;> rw [heq] at hfirst
    · exact hfirst
    · rename_i o₁
      have hsecond := h.trans hfirst (h.drainFull (o₁.fill data).2)
      dsimp only
      split <;> rename_i heq <;> rw [heq] at hsecond <;> exact hsecond

theorem drainSecure (o : WriteBuffer.Over σ) : R o.wire (SecureSession.drain o).2.wire := by
  unfold SecureSession.drain
  split
  · exact h.refl o.wire
  · exact h.sendRecords o.wire o.contents

theorem writeSecure (o : WriteBuffer.Over σ) (data : Bytes) :
    R o.wire (SecureSession.write o data).2.wire := by
  have hdrain : R o.wire (SecureSession.drainFull o).2.wire := by
    unfold SecureSession.drainFull
    split
    · exact h.drainSecure o
    · exact h.refl o.wire
  have hsend := h.sendRecords o.wire data
  unfold SecureSession.write
  split
  · exact h.refl o.wire
  split
  · split <;> rename_i heq <;> rw [heq] at hsend <;> exact hsend
  · split <;> rename_i heq <;> rw [heq] at hdrain <;> exact hdrain

/-- **Writes of a link** carry on what calls on its wire carry on. -/
theorem link : Link.Written fun l l' : Link σ => R l.wire l'.wire where
  refl l := h.refl l.wire
  trans := h.trans
  write l data := by
    unfold Link.write
    split
    · exact h.write l.wire data
    · exact h.writeBuffered (l.buffering _) data
    · split
      · exact h.writeSecure (l.buffering _) data
      · exact h.refl l.wire

/-- A buffer is flushed by draining it first. -/
theorem flushBy_of_error
    (hflush : ∀ {w w' : σ} {failure}, Transport.flush w = (.error failure, w') → R w w')
    {wire : σ} {drained : Except TransportFailure Unit × WriteBuffer.Over σ}
    (hdrain : R wire drained.2.wire) {failure : TransportFailure} {o' : WriteBuffer.Over σ}
    (hcall : (match drained with
      | (.error failure, o) => (.error failure, o)
      | (.ok (), o) => ((Transport.flush o.wire).1, { o with wire := (Transport.flush o.wire).2 }))
        = (.error failure, o')) : R wire o'.wire := by
  rcases drained with ⟨first | value, o⟩
  · cases hcall
    exact hdrain
  · rcases hcall' : Transport.flush o.wire with ⟨outcome, wire'⟩
    dsimp only at hcall
    rw [hcall'] at hcall
    cases hcall
    exact h.trans hdrain (hflush hcall')

/-- **A flush that fails** carries on what writes and failing flushes of the wire do. -/
theorem flush_of_error
    (hflush : ∀ {w w' : σ} {failure}, Transport.flush w = (.error failure, w') → R w w')
    {l l' : Link σ} {failure : TransportFailure} (hcall : l.flush = (.error failure, l')) :
    R l.wire l'.wire := by
  unfold Link.flush at hcall
  split at hcall
  · rcases hflushed : Transport.flush l.wire with ⟨outcome, wire⟩
    rw [hflushed] at hcall
    cases hcall
    exact hflush hflushed
  · rename_i buffer _
    rcases hflushed : (l.buffering buffer).flush with ⟨outcome, o⟩
    rw [hflushed] at hcall
    cases hcall
    exact h.flushBy_of_error hflush (h.drain (l.buffering buffer)) hflushed
  · rename_i session _
    split at hcall
    · rcases hflushed : SecureSession.flush (l.buffering session.buffer) with ⟨outcome, o⟩
      rw [hflushed] at hcall
      cases hcall
      exact h.flushBy_of_error hflush (h.drainSecure (l.buffering session.buffer)) hflushed
    · cases hcall
      exact h.refl l.wire

end WireWritten

end Carrying

/-! ## Tapped wires -/

/-- A call on a wire, with its answer. -/
inductive WireCall
  | read (n : Nat) (answer : Except TransportFailure Bytes)
  | write (data : Bytes) (answer : Except TransportFailure Nat)
  | flush (answer : Except TransportFailure Unit)
  | close
  | handshake (stage : Nat) (hello : Hello) (answer : Except TransportFailure Unit)
  | sendRecords (data : Bytes) (answer : Except TransportFailure Unit)
  | receiveRecord (n : Nat) (answer : Except TransportFailure Bytes)
  | farewell (told : Bool)

/-- A wire with a log of the calls that were made on it. -/
structure Tapped (σ : Type) where
  wire : σ
  calls : List WireCall

namespace Tapped

variable {σ : Type}

/-- The wire after a call, which is logged with its answer. -/
def note {α : Type} (t : Tapped σ) (call : α → WireCall) (r : α × σ) : α × Tapped σ :=
  (r.1, ⟨r.2, t.calls ++ [call r.1]⟩)

theorem note_eq {α : Type} {t t' : Tapped σ} {call : α → WireCall} {r : α × σ} {answer : α}
    (h : t.note call r = (answer, t')) :
    r = (answer, t'.wire) ∧ t'.calls = t.calls ++ [call answer] := by
  obtain ⟨answer', wire⟩ := r
  cases h
  exact ⟨rfl, rfl⟩

variable [SecureTransport σ]

instance : SecureTransport (Tapped σ) where
  read t n := t.note (.read n) (Transport.read t.wire n)
  write t data := t.note (.write data) (Transport.write t.wire data)
  flush t := t.note .flush (Transport.flush t.wire)
  close t := ⟨Transport.close t.wire, t.calls ++ [.close]⟩
  unread t := Transport.unread t.wire
  read_length_le h := Transport.read_length_le (note_eq h).1
  unread_of_read h := Transport.unread_of_read (note_eq h).1
  write_le h := Transport.write_le (note_eq h).1
  handshake t stage hello :=
    t.note (.handshake stage hello) (SecureTransport.handshake t.wire stage hello)
  sendRecords t data := t.note (.sendRecords data) (SecureTransport.sendRecords t.wire data)
  receiveRecord t n := t.note (.receiveRecord n) (SecureTransport.receiveRecord t.wire n)
  farewell t := t.note .farewell (SecureTransport.farewell t.wire)
  receiveRecord_length_le h := SecureTransport.receiveRecord_length_le (note_eq h).1
  unread_of_receiveRecord h := SecureTransport.unread_of_receiveRecord (note_eq h).1

/-- A tap makes the calls of the wire below it. -/
theorem simulation : WireSimulation fun (w : σ) (t : Tapped σ) => t.wire = w where
  read h n := by
    subst h
    exact .of_eq _ rfl
  write h data := by
    subst h
    exact .of_eq _ rfl
  flush h := by
    subst h
    exact .of_eq _ rfl
  sendRecords h data := by
    subst h
    exact .of_eq _ rfl
  receiveRecord h n := by
    subst h
    exact .of_eq _ rfl

end Tapped

namespace Link

variable {σ : Type}

/-- The link on a wire that is tapped from now on. -/
def tapped (l : Link σ) : Link (Tapped σ) := ⟨l.connection, l.scratch, ⟨l.wire, []⟩, l.journal⟩

/-- The link on the wire below the tap. -/
def untapped (k : Link (Tapped σ)) : Link σ := ⟨k.connection, k.scratch, k.wire.wire, k.journal⟩

theorem untapped_tapped (l : Link σ) : l.tapped.untapped = l := rfl

/-- **A tap is not noticed** by anything that is done with a link. -/
theorem simulation_tapped [SecureTransport σ] :
    Simulation fun (l : Link σ) (k : Link (Tapped σ)) => k.untapped = l := by
  have heq : (fun (l : Link σ) (k : Link (Tapped σ)) => k.untapped = l)
      = Over fun w t => t.wire = w := by
    funext l k
    obtain ⟨connection, scratch, wire, journal⟩ := l
    simp [untapped, over_iff]
  rw [heq]
  exact simulation_over Tapped.simulation

end Link

end HttpExchange
