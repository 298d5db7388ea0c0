import HttpExchange.Proofs.Lease
import HttpExchange.Proofs.Outbound

/-!
# What calls hand over

A call that writes hands a text over to its connection unless it fails (`Usage.handed?`): as
much of it as a write says it has taken, and the whole of a request. On a wire with a log the
texts of a run stand one behind the other, first those the wire has logged and then those
which are pending (`Usage.handedAll_logged`). Reads must not be logged, and the connection
stays open.
-/

namespace HttpExchange

/-! ## Writes that take nothing -/

namespace WriteBuffer.Over

variable {σ : Type} {o o' : Over σ} {data : Bytes} {n : Nat}

/-- A buffer that has a capacity has room once it was drained because it was full. -/
theorem room_of_drainFull
    {drain : Over σ → Except TransportFailure Unit × Over σ} (h : o.Proper)
    (hcapacity : 0 < o.buffer.capacity)
    (hdrain : ∀ {o'}, drain o = (.ok (), o') → o'.buffer = ⟨o.buffer.capacity, 0⟩)
    (hcall : (if o.isFull then drain o else (.ok (), o)) = (.ok (), o')) :
    o'.buffer.pending < o'.buffer.capacity := by
  cases hfull : o.isFull with
  | true =>
      rw [hfull, if_pos rfl] at hcall
      rw [hdrain hcall]
      exact hcapacity
  | false =>
      rw [hfull, if_neg Bool.false_ne_true] at hcall
      cases hcall
      have hle := h.pending_le
      have hne : o.buffer.pending ≠ o.buffer.capacity := by
        simpa [isFull] using hfull
      omega

/-- What is filled into a buffer that has room is not nothing. -/
theorem take_fits_ne_nil (hdata : data ≠ []) (hroom : o.buffer.pending < o.buffer.capacity) :
    data.take (o.fits data) ≠ [] := by
  have hpos := fits_pos hdata hroom
  intro hnil
  rcases List.take_eq_nil_iff.mp hnil with hzero | hempty
  · omega
  · exact hdata hempty

variable [SecureTransport σ]

theorem write_nothing (h : o.Proper) (hcall : o.write data = (.ok n, o'))
    (hnothing : data.take n = []) : o' = { o with wire := o'.wire } ∧
      (o'.wire = o.wire ∨ Transport.write o.wire data = (.ok n, o'.wire)) := by
  unfold write at hcall
  by_cases hdata : data = []
  · rw [if_pos hdata] at hcall
    cases hcall
    exact ⟨rfl, .inl rfl⟩
  rw [if_neg hdata] at hcall
  by_cases hpast : o.buffer.pending = 0 ∧ o.buffer.capacity ≤ data.length
  · rw [if_pos hpast] at hcall
    cases hwrite : Transport.write o.wire data with
    | mk accepted wire =>
        rw [hwrite] at hcall
        cases hcall
        exact ⟨rfl, .inr rfl⟩
  · rw [if_neg hpast] at hcall
    have hcapacity := capacity_pos h hpast
    cases hdrain : o.drainFull with
    | mk outcome o₁ =>
        rw [hdrain] at hcall
        cases outcome with
        | error failure => cases hcall
        | ok value =>
            have hroom : o₁.buffer.pending < o₁.buffer.capacity := by
              refine room_of_drainFull h hcapacity ?_ hdrain
              intro o' hdrained
              exact congrArg (fun r => r.2.buffer) hdrained.symm
            dsimp only at hcall
            split at hcall
            · cases hcall
            · cases hcall
              exact absurd hnothing (take_fits_ne_nil hdata hroom)

end WriteBuffer.Over

theorem SecureSession.write_nothing {σ : Type} [SecureTransport σ] {o o' : Over σ} {data : Bytes}
    {n : Nat} (h : o.Proper) (hcall : write o data = (.ok n, o')) (hnothing : data.take n = []) :
    o' = o := by
  unfold write at hcall
  by_cases hdata : data = []
  · rw [if_pos hdata] at hcall
    cases hcall
    rfl
  rw [if_neg hdata] at hcall
  by_cases hpast : o.buffer.pending = 0 ∧ o.buffer.capacity ≤ data.length
  · rw [if_pos hpast] at hcall
    split at hcall
    · cases hcall
    · cases hcall
      rw [List.take_length] at hnothing
      exact absurd hnothing hdata
  · rw [if_neg hpast] at hcall
    have hcapacity := WriteBuffer.Over.capacity_pos h hpast
    cases hdrain : drainFull o with
    | mk outcome o₁ =>
        rw [hdrain] at hcall
        cases outcome with
        | error failure => cases hcall
        | ok value =>
            have hroom : o₁.buffer.pending < o₁.buffer.capacity := by
              refine WriteBuffer.Over.room_of_drainFull h hcapacity ?_ hdrain
              intro o' hdrained
              unfold drain at hdrained
              split at hdrained
              · rename_i hpending
                cases hdrained
                rw [← hpending]
              · exact congrArg (fun r => r.2.buffer) hdrained.symm
            cases hcall
            exact absurd hnothing (WriteBuffer.Over.take_fits_ne_nil hdata hroom)

namespace Link

variable {σ : Type}

/-- Wire and journal do not matter to what is pending. -/
theorem pending_eq {l l' : Link σ} (hform : l'.connection.form = l.connection.form)
    (hscratch : l'.scratch = l.scratch) : l'.pending = l.pending := by
  obtain ⟨⟨form, phase, holdsLease⟩, scratch, wire, journal⟩ := l
  obtain ⟨⟨form', phase', holdsLease'⟩, scratch', wire', journal'⟩ := l'
  obtain rfl : form' = form := hform
  obtain rfl : scratch' = scratch := hscratch
  cases form' <;> rfl

theorem ready_of_eq {l l' : Link σ} (hform : l'.connection.form = l.connection.form)
    (hscratch : l'.scratch = l.scratch) (h : l.Ready) : l'.Ready := by
  obtain ⟨⟨form, phase, holdsLease⟩, scratch, wire, journal⟩ := l
  obtain ⟨⟨form', phase', holdsLease'⟩, scratch', wire', journal'⟩ := l'
  obtain rfl : form' = form := hform
  obtain rfl : scratch' = scratch := hscratch
  cases form' with
  | plain => trivial
  | buffered buffer => exact ⟨h.pending_le, h.stored⟩
  | secured session => exact ⟨h.1, h.2.pending_le, h.2.stored⟩

/-- A link that is ready is ready over any memory in which its pending bytes fit. -/
theorem ready_of_fits {l : Link σ} {memory : Scratch} (h : l.Ready)
    (hfits : Fits { l with scratch := memory }) : Ready { l with scratch := memory } := by
  obtain ⟨⟨form, phase, holdsLease⟩, scratch, wire, journal⟩ := l
  cases form with
  | plain => trivial
  | buffered buffer => exact hfits
  | secured session => exact ⟨h.1, hfits⟩

variable [SecureTransport σ]

/-- A write that takes nothing has left the buffer alone, and it was no more than offered to
the wire. -/
theorem write_nothing {l l' : Link σ} {data : Bytes} {n : Nat} (hready : l.Ready)
    (hcall : l.write data = (.ok n, l')) (hnothing : data.take n = []) :
    l' = { l with wire := l'.wire } ∧
      (l'.wire = l.wire ∨ l.connection.form.offer l.wire data = (.ok n, l'.wire)) := by
  obtain ⟨⟨form, phase, holdsLease⟩, scratch, wire, journal⟩ := l
  unfold write at hcall
  cases form with
  | plain =>
      cases hwrite : Transport.write wire data with
      | mk accepted wire' =>
          dsimp only at hcall
          rw [hwrite] at hcall
          cases hcall
          exact ⟨rfl, .inr hwrite⟩
  | buffered buffer =>
      dsimp only [buffering] at hcall
      cases hwrite : WriteBuffer.Over.write ⟨buffer, scratch, wire⟩ data with
      | mk accepted o =>
          rw [hwrite] at hcall
          cases hcall
          obtain ⟨heq, hwire⟩ := WriteBuffer.Over.write_nothing hready hwrite hnothing
          rw [heq]
          exact ⟨rfl, hwire⟩
  | secured session =>
      obtain ⟨buffer, isOpen⟩ := session
      obtain ⟨hopen, hproper⟩ := hready
      obtain rfl : isOpen = true := hopen
      dsimp only [buffering] at hcall
      rw [if_pos rfl] at hcall
      cases hwrite : SecureSession.write ⟨buffer, scratch, wire⟩ data with
      | mk accepted o =>
          rw [hwrite] at hcall
          cases hcall
          rw [SecureSession.write_nothing hproper hwrite hnothing]
          exact ⟨rfl, .inl rfl⟩

end Link

/-! ## What was handed over -/

/-- A request that is refused hands nothing over. -/
def Request.handed? {σ : Type} [SecureTransport σ] (r : Request) (l : Link σ) : Option Bytes :=
  match (r.write l).1 with
  | .ok () => some r.serialized
  | .error failure => if failure.retrySafe then some [] else none

namespace Usage

variable {σ : Type} [SecureTransport σ]

/-- The text that a call hands over, unless it fails in handing it over. Whether a response
comes does not matter. -/
def handed? (u : Usage σ) : Call → Option Bytes
  | .write data =>
    match (u.link.write data).1 with
    | .ok n => some (data.take n)
    | .error _ => none
  | .flush =>
    match u.link.flush.1 with
    | .ok () => some []
    | .error _ => none
  | .writeRequest request | .send request _ => request.handed? u.link
  | _ => some []

end Usage

namespace Ledger

variable {σ : Type} [SecureTransport σ] {offer : σ → Bytes → Except TransportFailure Nat × σ}

/-- A link was handed a text that its wire has logged in part, and it reads in some way. -/
structure Logs (L : Ledger offer) (receive : σ → Nat → Except TransportFailure Bytes × σ)
    (l : Link σ) (text : Bytes) : Prop where
  on : L.channel.On l text
  receive_eq : l.connection.form.receive = receive

variable {L : Ledger offer} {receive : σ → Nat → Except TransportFailure Bytes × σ} {l l' : Link σ}
  {text : Bytes}

theorem Logs.text_eq (h : L.Logs receive l text) : L.delivered l.wire ++ l.pending = text :=
  (on_channel_iff.mp h.on).2.2

/-- Over another memory that shows the same in its front. -/
theorem Logs.over (h : L.Logs receive l text) {memory : Scratch}
    (hfits : Link.Fits { l with scratch := memory })
    (hpending : Link.pending { l with scratch := memory } = l.pending) :
    L.Logs receive { l with scratch := memory } text := by
  obtain ⟨hoffer, hready, htext⟩ := on_channel_iff.mp h.on
  refine ⟨on_channel_iff.mpr ⟨hoffer, Link.ready_of_fits hready hfits, ?_⟩, h.receive_eq⟩
  rw [hpending]
  exact htext

/-- Only form, memory and log of a link matter. -/
theorem Logs.of_eq (h : L.Logs receive l text) (hform : l'.connection.form = l.connection.form)
    (hscratch : l'.scratch = l.scratch) (hwire : L.delivered l'.wire = L.delivered l.wire) :
    L.Logs receive l' text := by
  obtain ⟨hoffer, hready, htext⟩ := on_channel_iff.mp h.on
  refine ⟨on_channel_iff.mpr ⟨?_, Link.ready_of_eq hform hscratch hready, ?_⟩, ?_⟩
  · rw [hform]
    exact hoffer
  · rw [hwire, Link.pending_eq hform hscratch]
    exact htext
  · rw [hform]
    exact h.receive_eq

/-- As long as reads are not logged, calls that only read hand nothing over. -/
theorem heard_logs (hquiet : ∀ w n, L.delivered (receive w n).2 = L.delivered w) (text : Bytes) :
    Link.Heard fun l => L.Logs receive l text where
  read {l} h n := by
    rw [Link.read_eq]
    refine h.of_eq rfl rfl ?_
    rw [h.receive_eq]
    exact hquiet l.wire n
  enter h _ := h.of_eq rfl rfl rfl
  log h _ _ := h.of_eq rfl rfl rfl

theorem Logs.write (h : L.Logs receive l text) {data : Bytes} {n : Nat}
    (hcall : l.write data = (.ok n, l')) : L.Logs receive l' (text ++ data.take n) := by
  by_cases hnothing : data.take n = []
  · obtain ⟨hoffer, hready, -⟩ := on_channel_iff.mp h.on
    obtain ⟨heq, hwire⟩ := Link.write_nothing hready hcall hnothing
    rw [hnothing, List.append_nil]
    refine h.of_eq (by rw [heq]) (by rw [heq]) ?_
    rcases hwire with hwire | hwire
    · rw [hwire]
    · rw [hoffer] at hwire
      rw [L.accepts hwire, hnothing, List.append_nil]
  · have hdata : data ≠ [] := by
      rintro rfl
      exact hnothing List.take_nil
    have hpos : 0 < n := by
      refine Nat.pos_of_ne_zero ?_
      rintro rfl
      exact hnothing rfl
    cases h.on.write hdata with
    | fails failure k call holds =>
        rw [hcall] at call
        cases call
    | succeeds m k call holds =>
        rw [hcall] at call
        cases call
        exact ⟨holds.1.2 hpos, holds.2.receive_eq.trans h.receive_eq⟩

theorem Logs.flush (h : L.Logs receive l text) (hcall : l.flush = (.ok (), l')) :
    L.Logs receive l' text := by
  cases h.on.flush with
  | fails failure k call holds =>
      rw [hcall] at call
      cases call
  | succeeds value k call holds =>
      rw [hcall] at call
      cases call
      exact ⟨holds.1, holds.2.2.receive_eq.trans h.receive_eq⟩

/-- A request that was written was handed over as a whole, and one that was refused not at
all. -/
theorem Logs.request (h : L.Logs receive l text) {r : Request} {given : Bytes}
    (hhanded : r.handed? l = some given) : L.Logs receive (r.write l).2 (text ++ given) := by
  unfold Request.handed? at hhanded
  by_cases hidle : l.phase = .idle
  · rcases r.write_outcome hidle h.on with
      ⟨l', hwrite, -, hon, -, hkeeps⟩ | ⟨failure, l', hwrite, -⟩
    · rw [hwrite] at hhanded ⊢
      cases hhanded
      exact ⟨hon, hkeeps.receive_eq.trans h.receive_eq⟩
    · rw [hwrite] at hhanded
      cases hhanded
  · obtain ⟨why, hwrite⟩ := Link.write_of_not_idle hidle r
    rw [hwrite] at hhanded ⊢
    cases hhanded
    rw [List.append_nil]
    exact h

end Ledger

namespace Usage

variable {σ : Type} [SecureTransport σ] {offer : σ → Bytes → Except TransportFailure Nat × σ}
  {L : Ledger offer} {receive : σ → Nat → Except TransportFailure Bytes × σ} {u : Usage σ}
  {text given : Bytes}

/-- **What a call has handed over** stands behind what was handed over before. -/
theorem logs_step (hquiet : ∀ w n, L.delivered (receive w n).2 = L.delivered w)
    (h : L.Logs receive u.link text) {call : Call} (hclose : call.isClose = false)
    (hkind : u.link.connection.kind ≠ .plain) (hhanded : u.handed? call = some given) :
    L.Logs receive (u.step call).link (text ++ given) := by
  have hheard (hcall : call.hears = true) (hnone : u.handed? call = some []) :
      L.Logs receive (u.step call).link (text ++ given) := by
    rw [hnone] at hhanded
    cases hhanded
    rw [List.append_nil]
    exact heard_step (L.heard_logs hquiet text) h hcall
  cases call with
  | write data =>
      unfold handed? at hhanded
      show L.Logs receive (u.link.write data).2 _
      cases hcall : u.link.write data with
      | mk outcome l' =>
          dsimp only at hhanded
          rw [hcall] at hhanded
          cases outcome with
          | error failure => cases hhanded
          | ok n =>
              cases hhanded
              exact h.write hcall
  | flush =>
      unfold handed? at hhanded
      show L.Logs receive u.link.flush.2 _
      cases hcall : u.link.flush with
      | mk outcome l' =>
          dsimp only at hhanded
          rw [hcall] at hhanded
          cases outcome with
          | error failure => cases hhanded
          | ok value =>
              cases hhanded
              rw [List.append_nil]
              exact h.flush hcall
  | writeRequest request => exact h.request hhanded
  | send request capacity =>
      have hrequest := h.request hhanded
      show L.Logs receive (u.link.send request capacity).2 _
      unfold Link.send
      cases hcall : request.write u.link with
      | mk outcome l' =>
          rw [hcall] at hrequest
          cases outcome with
          | error failure => exact hrequest
          | ok value =>
              exact (L.heard_logs hquiet _).readResponse hrequest request.method capacity
  | close => cases hclose
  | intoBuffered capacity =>
      cases hhanded
      rw [List.append_nil]
      show L.Logs receive (u.link.intoBuffered capacity) _
      rwa [Link.intoBuffered_of_kind hkind]
  | _ => exact hheard rfl rfl

end Usage

end HttpExchange
