import HttpExchange.Proofs.Inbound

/-!
# Channels

What is written on a connection reaches the wire in the form of the connection: as it is, by
way of a write buffer, or as records behind such a buffer. A `Channel` is a wire of which two
things can be said: what it has accepted as long as no call has failed (`accepted`), and what
holds once a call has failed (`broken`). Both are said against the text that was handed over,
and every operation of a link on a channel carries them on: `Channel.On` says that what the
wire has accepted and what is pending behind it are together the text that was handed over.

* `Channel.On.write`, `Channel.On.writeAll`: a write hands over what it accepts, and all of a
  text in the end, or the channel is broken.
* `Channel.On.flush`: after a flush nothing is pending, or the channel is broken.
-/

namespace HttpExchange

/-- How a call ends: with a value and `kept`, or with a failure and `lost`. -/
inductive Outcome {α s : Type} (r : Except TransportFailure α × s) (kept : α → s → Prop)
    (lost : TransportFailure → s → Prop) : Prop
  | succeeds (value : α) (state : s) (call : r = (.ok value, state)) (holds : kept value state)
  | fails (failure : TransportFailure) (state : s) (call : r = (.error failure, state))
      (holds : lost failure state)

theorem Outcome.imp {α s : Type} {r : Except TransportFailure α × s} {kept kept' : α → s → Prop}
    {lost lost' : TransportFailure → s → Prop} (h : Outcome r kept lost)
    (hkept : ∀ value state, kept value state → kept' value state)
    (hlost : ∀ failure state, lost failure state → lost' failure state) :
    Outcome r kept' lost' := by
  cases h with
  | succeeds value state call holds => exact .succeeds value state call (hkept value state holds)
  | fails failure state call holds => exact .fails failure state call (hlost failure state holds)

/-- A stream that takes a part of every text takes all of it in the end, or it fails. To
accept nothing is a failure, too. -/
theorem writeAll_outcome {s : Type} {write : s → Bytes → Except TransportFailure Nat × s}
    (Takes : s → Bytes → Prop) (Lost : s → TransportFailure → Bytes → Prop)
    (hwrite : ∀ {x text data}, Takes x text → data ≠ [] →
      Outcome (write x data)
        (fun n x' => (n = 0 → Lost x' .nothingAccepted (text ++ data)) ∧
          (0 < n → Takes x' (text ++ data.take n)))
        fun failure x' => Lost x' failure (text ++ data))
    {x : s} {text : Bytes} (data : Bytes) (h : Takes x text) :
    Outcome (writeAll write x data) (fun _ x' => Takes x' (text ++ data))
      fun failure x' => Lost x' failure (text ++ data) := by
  by_cases hdata : data = []
  · subst hdata
    refine .succeeds () x ?_ (by rwa [List.append_nil])
    rw [writeAll, if_pos rfl]
  · cases hwrite h hdata with
    | fails failure x' call holds =>
        refine .fails failure x' ?_ holds
        rw [writeAll, if_neg hdata, call]
    | succeeds n x' call holds =>
        cases n with
        | zero =>
            refine .fails .nothingAccepted x' ?_ (holds.1 rfl)
            rw [writeAll, if_neg hdata, call]
        | succ n =>
            have hshorter : (data.drop (n + 1)).length < data.length := by
              have := List.length_pos_iff.mpr hdata
              rw [List.length_drop]
              omega
            have hrest := writeAll_outcome Takes Lost hwrite (data.drop (n + 1))
              (holds.2 (Nat.succ_pos n))
            rw [List.append_assoc, List.take_append_drop] at hrest
            rw [writeAll, if_neg hdata, call]
            exact hrest
termination_by data.length

/-! ## Write buffers -/

namespace WriteBuffer.Over

variable {σ : Type}

def contents (o : Over σ) : Bytes := o.buffer.contents o.scratch

/-- What is pending fits, and it is there. -/
structure Proper (o : Over σ) : Prop where
  pending_le : o.buffer.pending ≤ o.buffer.capacity
  stored : o.buffer.pending ≤ o.scratch.bytes.length

theorem contents_eq_nil {o : Over σ} (h : o.buffer.pending = 0) : o.contents = [] := by
  rw [contents, WriteBuffer.contents, h, List.take_zero]

theorem ne_nil_of_pending {o : Over σ} (h : o.Proper) (hp : o.buffer.pending ≠ 0) :
    o.contents ≠ [] := by
  intro hnil
  have := congrArg List.length hnil
  have hle := h.stored
  simp only [contents, WriteBuffer.contents, List.length_take, List.length_nil] at this
  omega

/-- How much of a text there is room for. -/
def fits (o : Over σ) (data : Bytes) : Nat :=
  min data.length (o.buffer.capacity - o.buffer.pending)

/-- Filling takes at least one byte where there is room for one. -/
theorem fits_pos {o : Over σ} {data : Bytes} (hdata : data ≠ [])
    (hroom : o.buffer.pending < o.buffer.capacity) : 0 < o.fits data := by
  have := List.length_pos_iff.mpr hdata
  unfold fits
  omega

/-- A text that does not go past a buffer finds that it has a capacity. -/
theorem capacity_pos {o : Over σ} {data : Bytes} (h : o.Proper)
    (hpast : ¬ (o.buffer.pending = 0 ∧ o.buffer.capacity ≤ data.length)) :
    0 < o.buffer.capacity := by
  have hle := h.pending_le
  by_cases hzero : o.buffer.capacity = 0
  · exact absurd ⟨by omega, by omega⟩ hpast
  · exact Nat.pos_of_ne_zero hzero

theorem contents_fill {o : Over σ} (h : o.Proper) (data : Bytes) :
    (o.fill data).2.contents = o.contents ++ data.take (o.fits data) := by
  have hstored := h.stored
  have hlen : (data.take (o.fits data)).length = o.fits data := by
    rw [List.length_take]
    exact Nat.min_eq_left (Nat.min_le_left ..)
  show (o.scratch.bytes.take o.buffer.pending ++ data.take (o.fits data) ++ _).take
    (o.buffer.pending + o.fits data) = _
  refine List.take_left' ?_
  rw [List.length_append, hlen, List.length_take, Nat.min_eq_left hstored]

theorem proper_fill {o : Over σ} (h : o.Proper) (data : Bytes) : (o.fill data).2.Proper := by
  have hpending := h.pending_le
  have hstored := h.stored
  constructor
  · show o.buffer.pending + o.fits data ≤ o.buffer.capacity
    unfold fits
    omega
  · show o.buffer.pending + o.fits data ≤ (Bytes.splice _ _ _).length
    simp only [Bytes.splice, fits, List.length_append, List.length_take, List.length_drop]
    omega

end WriteBuffer.Over

/-! ## What forms offer to the wire -/

section Offering

variable {σ : Type} [SecureTransport σ]

/-- How the wire takes a text that a connection of some form has to send. -/
def Form.offer (form : Form) (wire : σ) (data : Bytes) : Except TransportFailure Nat × σ :=
  match form with
  | .plain | .buffered _ => Transport.write wire data
  | .secured session =>
    if session.isOpen then
      match SecureTransport.sendRecords wire data with
      | (.error failure, wire) => (.error failure, wire)
      | (.ok (), wire) => (.ok data.length, wire)
    else (.error .sessionClosed, wire)

end Offering

namespace Link

variable {σ : Type}

/-- Nothing is pending. -/
def Flushed (l : Link σ) : Prop :=
  match l.connection.form with
  | .plain => True
  | .buffered buffer => buffer.pending = 0
  | .secured session => session.buffer.pending = 0

/-- The phase is as before, and so is the way in which bytes arrive. -/
structure Keeps [SecureTransport σ] (l l' : Link σ) : Prop where
  phase_eq : l'.phase = l.phase
  receive_eq : l'.connection.form.receive (σ := σ) = l.connection.form.receive

theorem Keeps.refl [SecureTransport σ] (l : Link σ) : Keeps l l := ⟨rfl, rfl⟩

theorem Keeps.trans [SecureTransport σ] {l l₁ l₂ : Link σ} (h : Keeps l l₁) (h' : Keeps l₁ l₂) :
    Keeps l l₂ :=
  ⟨h'.phase_eq.trans h.phase_eq, h'.receive_eq.trans h.receive_eq⟩

end Link

/-- A wire that is offered texts: at `w` it has `accepted` a text, in whatever parts; once a
call has failed it is `broken`, with all that was handed over up to then, and whatever is said
of that may be said of more. -/
structure Channel {σ : Type} [SecureTransport σ]
    (offer : σ → Bytes → Except TransportFailure Nat × σ) where
  accepted : σ → Bytes → Prop
  broken : σ → TransportFailure → Bytes → Prop
  broken_append {w : σ} {failure : TransportFailure} {text : Bytes} (more : Bytes) :
    broken w failure text → broken w failure (text ++ more)
  offers {w : σ} {text data : Bytes} : accepted w text → data ≠ [] →
    Outcome (offer w data)
      (fun n w' => (n = 0 → broken w' .nothingAccepted (text ++ data)) ∧
        (0 < n → accepted w' (text ++ data.take n)))
      fun failure w' => broken w' failure (text ++ data)
  flushes {w : σ} {text : Bytes} : accepted w text →
    Outcome (Transport.flush w) (fun _ w' => accepted w' text)
      fun failure w' => broken w' failure text

namespace Link

variable {σ : Type}

/-- What is pending in the write buffer of a link. -/
def pending (l : Link σ) : Bytes :=
  match l.connection.form with
  | .plain => []
  | .buffered buffer => (l.buffering buffer).contents
  | .secured session => (l.buffering session.buffer).contents

/-- What is pending fits and is there, and a session is open. -/
def Ready (l : Link σ) : Prop :=
  match l.connection.form with
  | .plain => True
  | .buffered buffer => (l.buffering buffer).Proper
  | .secured session => session.isOpen = true ∧ (l.buffering session.buffer).Proper

theorem pending_of_flushed {l : Link σ} (h : l.Flushed) : l.pending = [] := by
  obtain ⟨⟨form, phase, holdsLease⟩, scratch, wire, journal⟩ := l
  cases form with
  | plain => rfl
  | buffered buffer => exact WriteBuffer.Over.contents_eq_nil h
  | secured session => exact WriteBuffer.Over.contents_eq_nil h

theorem ready_of_flushed {l : Link σ}
    (hopen : ∀ {session}, l.connection.form = .secured session → session.isOpen = true)
    (h : l.Flushed) : l.Ready := by
  obtain ⟨⟨form, phase, holdsLease⟩, scratch, wire, journal⟩ := l
  have proper {buffer : WriteBuffer} (hp : buffer.pending = 0) :
      WriteBuffer.Over.Proper (σ := σ) ⟨buffer, scratch, wire⟩ :=
    ⟨hp ▸ Nat.zero_le _, hp ▸ Nat.zero_le _⟩
  cases form with
  | plain => trivial
  | buffered buffer => exact proper h
  | secured session => exact ⟨hopen rfl, proper h⟩

/-- Only whether the session is open matters to how a secure link sends and receives. -/
theorem offer_secured [SecureTransport σ] {session : SecureSession} (hopen : session.isOpen = true)
    {buffer : WriteBuffer} : Form.offer (σ := σ) (.secured ⟨buffer, true⟩)
      = Form.offer (.secured session) := by
  obtain ⟨b, isOpen⟩ := session
  cases hopen
  rfl

theorem receive_secured [SecureTransport σ] {session : SecureSession}
    (hopen : session.isOpen = true) {buffer : WriteBuffer} :
    Form.receive (σ := σ) (.secured ⟨buffer, true⟩) = Form.receive (.secured session) := by
  obtain ⟨b, isOpen⟩ := session
  cases hopen
  rfl

end Link

namespace Channel

variable {σ : Type} [SecureTransport σ] {offer : σ → Bytes → Except TransportFailure Nat × σ}
  {C : Channel offer} {text data : Bytes} {o : WriteBuffer.Over σ}

/-! ## Write buffers over a channel -/

/-- What a write buffer was given: what the wire has accepted and then what is pending. -/
structure Given (C : Channel offer) (o : WriteBuffer.Over σ) (text : Bytes) : Prop where
  proper : o.Proper
  split : ∃ sent, C.accepted o.wire sent ∧ text = sent ++ o.contents

/-- A call on a write buffer that hands nothing over, or it breaks the channel. -/
def Settles (C : Channel offer) (text : Bytes)
    (r : Except TransportFailure Unit × WriteBuffer.Over σ) (kept : WriteBuffer.Over σ → Prop) :
    Prop :=
  Outcome r (fun _ o' => C.Given o' text ∧ kept o')
    fun failure o' => C.broken o'.wire failure text

/-- A way of handing the pending bytes on. -/
def Drains (C : Channel offer)
    (drain : WriteBuffer.Over σ → Except TransportFailure Unit × WriteBuffer.Over σ) : Prop :=
  ∀ {o text}, C.Given o text →
    C.Settles text (drain o) fun o' => o'.buffer = ⟨o.buffer.capacity, 0⟩

/-- Once the pending bytes are accepted the buffer is empty. -/
theorem given_drained {wire : σ} (h : C.accepted wire text) (capacity : Nat) (scratch : Scratch) :
    C.Given ⟨⟨capacity, 0⟩, scratch, wire⟩ text :=
  ⟨⟨Nat.zero_le _, Nat.zero_le _⟩, text, h, by
    rw [WriteBuffer.Over.contents_eq_nil rfl, List.append_nil]⟩

/-- A full buffer is drained before it takes more, and then there is room. -/
theorem Drains.drainFull
    {drain : WriteBuffer.Over σ → Except TransportFailure Unit × WriteBuffer.Over σ}
    (hdrain : C.Drains drain) (h : C.Given o text) :
    C.Settles text (if o.isFull then drain o else (.ok (), o)) fun o' =>
      o'.buffer.capacity = o.buffer.capacity ∧
      (0 < o.buffer.capacity → o'.buffer.pending < o'.buffer.capacity) := by
  cases hfull : o.isFull with
  | true =>
      refine (hdrain h).imp ?_ fun _ _ => id
      rintro _ o' ⟨hgiven, hbuffer⟩
      refine ⟨hgiven, by rw [hbuffer], ?_⟩
      intro hpos
      rw [hbuffer]
      exact hpos
  | false =>
      refine .succeeds () o rfl ⟨h, rfl, ?_⟩
      intro _
      have hle := h.proper.pending_le
      have hne : o.buffer.pending ≠ o.buffer.capacity := by
        simpa [WriteBuffer.Over.isFull] using hfull
      omega

theorem Given.fill (h : C.Given o text) (data : Bytes) :
    C.Given (o.fill data).2 (text ++ data.take (o.fits data)) := by
  obtain ⟨sent, haccepted, rfl⟩ := h.split
  refine ⟨WriteBuffer.Over.proper_fill h.proper data, sent, haccepted, ?_⟩
  rw [WriteBuffer.Over.contents_fill h.proper, List.append_assoc]

theorem Given.accepted (h : C.Given o text) (hp : o.buffer.pending = 0) :
    C.accepted o.wire text := by
  obtain ⟨sent, haccepted, rfl⟩ := h.split
  rwa [WriteBuffer.Over.contents_eq_nil hp, List.append_nil]

/-- A text goes past the buffer when nothing is pending in it. -/
theorem given_past (h : o.Proper) (hp : o.buffer.pending = 0) {wire : σ}
    (haccepted : C.accepted wire data) : C.Given { o with wire } data := by
  refine ⟨⟨h.pending_le, h.stored⟩, data, haccepted, ?_⟩
  show data = data ++ o.contents
  rw [WriteBuffer.Over.contents_eq_nil hp, List.append_nil]

/-- A call that was offered `data` takes a part of it, behind all that was given before. -/
def Takes (C : Channel offer) (text data : Bytes)
    (r : Except TransportFailure Nat × WriteBuffer.Over σ) : Prop :=
  Outcome r
    (fun n o' => (n = 0 → C.broken o'.wire .nothingAccepted (text ++ data)) ∧
      (0 < n → C.Given o' (text ++ data.take n)))
    fun failure o' => C.broken o'.wire failure (text ++ data)

/-- What was broken with a part of a text is broken with all of it. -/
theorem broken_of_take {w : σ} {failure : TransportFailure} {n : Nat}
    (h : C.broken w failure (text ++ data.take n)) : C.broken w failure (text ++ data) := by
  have := C.broken_append (data.drop n) h
  rwa [List.append_assoc, List.take_append_drop] at this

/-- Filling a buffer that has room takes a part of the text. -/
theorem takes_fill (h : C.Given o text) (hdata : data ≠ [])
    (hroom : o.buffer.pending < o.buffer.capacity) :
    C.Takes text data (.ok (o.fits data), (o.fill data).2) := by
  have hpos := WriteBuffer.Over.fits_pos hdata hroom
  exact .succeeds _ _ rfl ⟨fun hzero => absurd hzero (Nat.pos_iff_ne_zero.mp hpos),
    fun _ => h.fill data⟩

section Coalescing

variable {C : Channel (Transport.write : σ → Bytes → _)}

theorem drains_drain : C.Drains WriteBuffer.Over.drain := by
  intro o text h
  obtain ⟨sent, haccepted, rfl⟩ := h.split
  unfold WriteBuffer.Over.drain WriteBuffer.Over.drainBy
  cases writeAll_outcome C.accepted C.broken C.offers o.contents haccepted with
  | succeeds value wire call holds =>
      unfold WriteBuffer.Over.contents at call
      rw [call]
      exact .succeeds value _ rfl ⟨given_drained holds _ _, rfl⟩
  | fails failure wire call holds =>
      unfold WriteBuffer.Over.contents at call
      rw [call]
      exact .fails failure _ rfl holds

/-- **A coalescing write** takes a part of the text behind all that it was given before. -/
theorem Given.write (h : C.Given o text) (hdata : data ≠ []) :
    C.Takes text data (o.write data) := by
  unfold WriteBuffer.Over.write
  rw [if_neg hdata]
  -- A text that could not fit goes past an empty buffer, any other is filled in.
  by_cases hpast : o.buffer.pending = 0 ∧ o.buffer.capacity ≤ data.length
  · rw [if_pos hpast]
    cases C.offers (h.accepted hpast.1) hdata with
    | succeeds n wire call holds =>
        rw [call]
        exact .succeeds n _ rfl ⟨holds.1, fun hpos =>
          given_past h.proper hpast.1 (holds.2 hpos)⟩
    | fails failure wire call holds =>
        rw [call]
        exact .fails failure _ rfl holds
  · have hcapacity := WriteBuffer.Over.capacity_pos h.proper hpast
    rw [if_neg hpast, WriteBuffer.Over.drainFull]
    cases drains_drain.drainFull h with
    | fails failure o₁ call holds =>
        rw [call]
        exact .fails failure o₁ rfl (C.broken_append data holds)
    | succeeds value o₁ call holds =>
        obtain ⟨hgiven₁, -, hroom⟩ := holds
        rw [call]
        dsimp only
        rw [WriteBuffer.Over.drainFull]
        -- A buffer that has just become full is drained before the write is over.
        cases drains_drain.drainFull (hgiven₁.fill data) with
        | fails failure o₂ call holds =>
            rw [call]
            exact .fails failure o₂ rfl (broken_of_take holds)
        | succeeds value o₂ call holds =>
            have hpos := WriteBuffer.Over.fits_pos hdata (hroom hcapacity)
            rw [call]
            exact .succeeds _ o₂ rfl ⟨fun hzero => absurd hzero (Nat.pos_iff_ne_zero.mp hpos),
              fun _ => holds.1⟩

theorem Given.flush (h : C.Given o text) :
    C.Settles text o.flush fun o' => o'.buffer.pending = 0 := by
  unfold WriteBuffer.Over.flush
  cases drains_drain h with
  | fails failure o₁ call holds =>
      rw [call]
      exact .fails failure o₁ rfl holds
  | succeeds value o₁ call holds =>
      obtain ⟨hgiven, hbuffer⟩ := holds
      have hp : o₁.buffer.pending = 0 := by rw [hbuffer]
      rw [call]
      dsimp only
      cases C.flushes (hgiven.accepted hp) with
      | succeeds value wire call holds =>
          rw [call]
          exact .succeeds value _ rfl ⟨given_past hgiven.proper hp holds, hp⟩
      | fails failure wire call holds =>
          rw [call]
          exact .fails failure _ rfl holds

end Coalescing

/-! ## Records over a channel -/

section Records

variable {session : SecureSession} {C : Channel ((Form.secured session).offer : σ → Bytes → _)}
  (hopen : session.isOpen = true)

include hopen

/-- An open session takes a text whole or fails. -/
theorem sendRecords_outcome {w : σ} (h : C.accepted w text) (hdata : data ≠ []) :
    Outcome (SecureTransport.sendRecords w data) (fun _ w' => C.accepted w' (text ++ data))
      fun failure w' => C.broken w' failure (text ++ data) := by
  have hoffer := C.offers h hdata
  unfold Form.offer at hoffer
  dsimp only at hoffer
  rw [if_pos hopen] at hoffer
  cases hsent : SecureTransport.sendRecords w data with
  | mk outcome wire =>
      rw [hsent] at hoffer
      cases outcome with
      | error failure =>
          cases hoffer with
          | succeeds n w' call holds => cases call
          | fails failure w' call holds =>
              cases call
              exact .fails _ _ rfl holds
      | ok value =>
          cases hoffer with
          | fails failure w' call holds => cases call
          | succeeds n w' call holds =>
              cases call
              have htaken := holds.2 (List.length_pos_iff.mpr hdata)
              rw [List.take_length] at htaken
              exact .succeeds _ _ rfl htaken

theorem drains_records : C.Drains SecureSession.drain := by
  intro o text h
  unfold SecureSession.drain
  by_cases hp : o.buffer.pending = 0
  · rw [if_pos hp]
    refine .succeeds () o rfl ⟨h, ?_⟩
    rw [← hp]
  · obtain ⟨sent, haccepted, rfl⟩ := h.split
    rw [if_neg hp]
    unfold WriteBuffer.Over.drainBy
    cases sendRecords_outcome hopen haccepted (WriteBuffer.Over.ne_nil_of_pending h.proper hp) with
    | succeeds value wire call holds =>
        unfold WriteBuffer.Over.contents at call
        rw [call]
        exact .succeeds value _ rfl ⟨given_drained holds _ _, rfl⟩
    | fails failure wire call holds =>
        unfold WriteBuffer.Over.contents at call
        rw [call]
        exact .fails failure _ rfl holds

/-- **A secure write** takes a part of the text behind all that it was given before. -/
theorem Given.writeSecure (h : C.Given o text) (hdata : data ≠ []) :
    C.Takes text data (SecureSession.write o data) := by
  unfold SecureSession.write
  rw [if_neg hdata]
  by_cases hpast : o.buffer.pending = 0 ∧ o.buffer.capacity ≤ data.length
  · rw [if_pos hpast]
    cases sendRecords_outcome hopen (h.accepted hpast.1) hdata with
    | succeeds value wire call holds =>
        have hpos := List.length_pos_iff.mpr hdata
        rw [call]
        refine .succeeds data.length { o with wire } rfl
          ⟨fun hzero => absurd hzero (Nat.pos_iff_ne_zero.mp hpos), ?_⟩
        intro _
        rw [List.take_length]
        exact given_past h.proper hpast.1 holds
    | fails failure wire call holds =>
        rw [call]
        exact .fails failure _ rfl holds
  · have hcapacity := WriteBuffer.Over.capacity_pos h.proper hpast
    rw [if_neg hpast, SecureSession.drainFull]
    cases Drains.drainFull (drains_records hopen) h with
    | fails failure o₁ call holds =>
        rw [call]
        exact .fails failure o₁ rfl (C.broken_append data holds)
    | succeeds value o₁ call holds =>
        obtain ⟨hgiven₁, -, hroom⟩ := holds
        rw [call]
        exact takes_fill hgiven₁ hdata (hroom hcapacity)

theorem Given.flushSecure (h : C.Given o text) :
    C.Settles text (SecureSession.flush o) fun o' => o'.buffer.pending = 0 := by
  unfold SecureSession.flush
  cases drains_records hopen h with
  | fails failure o₁ call holds =>
      rw [call]
      exact .fails failure o₁ rfl holds
  | succeeds value o₁ call holds =>
      obtain ⟨hgiven, hbuffer⟩ := holds
      have hp : o₁.buffer.pending = 0 := by rw [hbuffer]
      rw [call]
      dsimp only
      cases C.flushes (hgiven.accepted hp) with
      | succeeds value wire call holds =>
          rw [call]
          exact .succeeds value _ rfl ⟨given_past hgiven.proper hp holds, hp⟩
      | fails failure wire call holds =>
          rw [call]
          exact .fails failure _ rfl holds

end Records

/-! ## Links over a channel -/

/-- A link that sends to the channel was handed the text: the wire has accepted a part of it,
and the rest is pending. -/
structure On (C : Channel offer) (l : Link σ) (text : Bytes) : Prop where
  offer_eq : l.connection.form.offer = offer
  ready : l.Ready
  split : ∃ sent, C.accepted l.wire sent ∧ text = sent ++ l.pending

variable {l : Link σ}

theorem On.log (h : C.On l text) (level : Level) (texts : List Bytes) :
    C.On (l.log level texts) text :=
  ⟨h.offer_eq, h.ready, h.split⟩

/-- **A write on a link** hands over a part of the text, or the channel is broken. -/
theorem On.write (h : C.On l text) (hdata : data ≠ []) :
    Outcome (l.write data)
      (fun n l' => ((n = 0 → C.broken l'.wire .nothingAccepted (text ++ data)) ∧
        (0 < n → C.On l' (text ++ data.take n))) ∧ Link.Keeps l l')
      fun failure l' => C.broken l'.wire failure (text ++ data) ∧ Link.Keeps l l' := by
  obtain ⟨⟨form, phase, holdsLease⟩, scratch, wire, journal⟩ := l
  obtain ⟨rfl, hready, hsplit⟩ := h
  unfold Link.write
  cases form with
  | plain =>
      obtain ⟨sent, haccepted, rfl⟩ := hsplit
      have hoffer := C.offers haccepted hdata
      rw [show Link.pending ⟨⟨.plain, phase, holdsLease⟩, scratch, wire, journal⟩ = [] from rfl,
        List.append_nil]
      cases hoffer with
      | succeeds n wire' call holds =>
          have call : Transport.write wire data = (.ok n, wire') := call
          dsimp only
          rw [call]
          refine .succeeds n _ rfl ⟨⟨holds.1, ?_⟩, rfl, rfl⟩
          intro hpos
          exact ⟨rfl, trivial, _, holds.2 hpos, (List.append_nil _).symm⟩
      | fails failure wire' call holds =>
          have call : Transport.write wire data = (.error failure, wire') := call
          dsimp only
          rw [call]
          exact .fails failure _ rfl ⟨holds, rfl, rfl⟩
  | buffered buffer =>
      have hgiven : C.Given ⟨buffer, scratch, wire⟩ text := ⟨hready, hsplit⟩
      dsimp only [Link.buffering]
      cases Given.write (C := C) hgiven hdata with
      | succeeds n o call holds =>
          rw [call]
          refine .succeeds n _ rfl ⟨⟨holds.1, ?_⟩, rfl, rfl⟩
          intro hpos
          exact ⟨rfl, (holds.2 hpos).proper, (holds.2 hpos).split⟩
      | fails failure o call holds =>
          rw [call]
          exact .fails failure _ rfl ⟨holds, rfl, rfl⟩
  | secured session =>
      obtain ⟨hopen, hproper⟩ := hready
      have hgiven : C.Given ⟨session.buffer, scratch, wire⟩ text := ⟨hproper, hsplit⟩
      dsimp only [Link.buffering]
      rw [if_pos hopen]
      cases hgiven.writeSecure hopen hdata with
      | succeeds n o call holds =>
          rw [call]
          refine .succeeds n _ rfl ⟨⟨holds.1, ?_⟩, rfl, Link.receive_secured hopen⟩
          intro hpos
          exact ⟨Link.offer_secured hopen, ⟨rfl, (holds.2 hpos).proper⟩, (holds.2 hpos).split⟩
      | fails failure o call holds =>
          rw [call]
          exact .fails failure _ rfl ⟨holds, rfl, Link.receive_secured hopen⟩

theorem On.writeAll (h : C.On l text) (data : Bytes) :
    Outcome (l.writeAll data) (fun _ l' => C.On l' (text ++ data) ∧ Link.Keeps l l')
      fun failure l' => C.broken l'.wire failure (text ++ data) ∧ Link.Keeps l l' := by
  refine writeAll_outcome (fun x text => C.On x text ∧ Link.Keeps l x)
    (fun x failure text => C.broken x.wire failure text ∧ Link.Keeps l x) ?_ data ⟨h, .refl l⟩
  rintro x text data ⟨hon, hkeeps⟩ hdata
  refine (hon.write hdata).imp ?_ ?_
  · rintro n x' ⟨⟨hzero, hpos⟩, hkeeps'⟩
    exact ⟨fun hn => ⟨hzero hn, hkeeps.trans hkeeps'⟩, fun hn => ⟨hpos hn, hkeeps.trans hkeeps'⟩⟩
  · rintro failure x' ⟨hbroken, hkeeps'⟩
    exact ⟨hbroken, hkeeps.trans hkeeps'⟩

/-- **After a flush** nothing is pending, or the channel is broken. -/
theorem On.flush (h : C.On l text) :
    Outcome l.flush (fun _ l' => C.On l' text ∧ l'.Flushed ∧ Link.Keeps l l')
      fun failure l' => C.broken l'.wire failure text ∧ Link.Keeps l l' := by
  obtain ⟨⟨form, phase, holdsLease⟩, scratch, wire, journal⟩ := l
  obtain ⟨rfl, hready, hsplit⟩ := h
  unfold Link.flush
  cases form with
  | plain =>
      obtain ⟨sent, haccepted, rfl⟩ := hsplit
      rw [show Link.pending ⟨⟨.plain, phase, holdsLease⟩, scratch, wire, journal⟩ = [] from rfl,
        List.append_nil]
      dsimp only
      cases C.flushes haccepted with
      | succeeds value wire' call holds =>
          rw [call]
          exact .succeeds value _ rfl
            ⟨⟨rfl, trivial, _, holds, (List.append_nil _).symm⟩, trivial, rfl, rfl⟩
      | fails failure wire' call holds =>
          rw [call]
          exact .fails failure _ rfl ⟨holds, rfl, rfl⟩
  | buffered buffer =>
      have hgiven : C.Given ⟨buffer, scratch, wire⟩ text := ⟨hready, hsplit⟩
      dsimp only [Link.buffering]
      cases Given.flush (C := C) hgiven with
      | succeeds value o call holds =>
          rw [call]
          exact .succeeds value _ rfl ⟨⟨rfl, holds.1.proper, holds.1.split⟩, holds.2, rfl, rfl⟩
      | fails failure o call holds =>
          rw [call]
          exact .fails failure _ rfl ⟨holds, rfl, rfl⟩
  | secured session =>
      obtain ⟨hopen, hproper⟩ := hready
      have hgiven : C.Given ⟨session.buffer, scratch, wire⟩ text := ⟨hproper, hsplit⟩
      dsimp only [Link.buffering]
      rw [if_pos hopen]
      cases hgiven.flushSecure hopen with
      | succeeds value o call holds =>
          rw [call]
          exact .succeeds value _ rfl ⟨⟨Link.offer_secured hopen, ⟨rfl, holds.1.proper⟩,
            holds.1.split⟩, holds.2, rfl, Link.receive_secured hopen⟩
      | fails failure o call holds =>
          rw [call]
          exact .fails failure _ rfl ⟨holds, rfl, Link.receive_secured hopen⟩

theorem On.accepted (h : C.On l text) (hflushed : l.Flushed) : C.accepted l.wire text := by
  obtain ⟨sent, haccepted, rfl⟩ := h.split
  rwa [Link.pending_of_flushed hflushed, List.append_nil]

/-- **With nothing pending** a link was handed what its wire has accepted. -/
theorem on_of_accepted (hoffer : l.connection.form.offer = offer)
    (hopen : ∀ {session}, l.connection.form = .secured session → session.isOpen = true)
    (hflushed : l.Flushed) (haccepted : C.accepted l.wire text) : C.On l text := by
  refine ⟨hoffer, Link.ready_of_flushed hopen hflushed, text, haccepted, ?_⟩
  rw [Link.pending_of_flushed hflushed, List.append_nil]

end Channel

end HttpExchange
