import HttpExchange.Proofs.Draining
import HttpExchange.Proofs.RequestWriting
import HttpExchange.Proofs.Usage

/-!
# Simulations

Everything that is done on a link comes down to five things: it is read, written and flushed,
it enters a phase, and something is noted in its journal. So two links that are related in a
way that these five respect, with equal answers, cannot be told apart by any request, any
response or any reader, and they stay related (`Link.Simulation`). Nothing else has to be
known of the two, not even that their wires are of one kind. For responses and readers the
three that are not writes will do (`Link.Hearing`).

* `Link.Simulation.writeRequest`, `Link.Hearing.readResponse`, `Link.Simulation.send`: exchanges.
* `Reading.Similar.read`, `Reading.Similar.discard`, `Reading.Similar.readToEnd`: readers.
* `Usage.Similar.step`: all calls on connections, responses and readers.
* `Usage.invariant_step`: with equal links on both sides, an invariant of the five things is an
  invariant of all calls.
-/

namespace HttpExchange

/-- Two calls give the same answer and leave related states. -/
def Agree {α β γ : Type} (S : α → β → Prop) (r : γ × α) (r' : γ × β) : Prop :=
  ∃ c a b, r = (c, a) ∧ r' = (c, b) ∧ S a b

theorem Agree.of_eq {α β γ : Type} {S : α → β → Prop} {a : α} {b : β} (c : γ) (h : S a b) :
    Agree S (c, a) (c, b) :=
  ⟨c, a, b, rfl, rfl, h⟩

theorem Agree.snd {α β γ : Type} {S : α → β → Prop} {r : γ × α} {r' : γ × β} (h : Agree S r r') :
    S r.2 r'.2 := by
  obtain ⟨c, a, b, rfl, rfl, hab⟩ := h
  exact hab

theorem agree_writeAll {s t : Type} {write : s → Bytes → Except TransportFailure Nat × s}
    {write' : t → Bytes → Except TransportFailure Nat × t} {S : s → t → Prop}
    (hwrite : ∀ {x y}, S x y → ∀ data, Agree S (write x data) (write' y data)) {x : s} {y : t}
    (h : S x y) (data : Bytes) : Agree S (writeAll write x data) (writeAll write' y data) := by
  by_cases hdata : data = []
  · rw [writeAll, writeAll, if_pos hdata, if_pos hdata]
    exact .of_eq _ h
  · obtain ⟨outcome, x', y', hx, hy, h'⟩ := hwrite h data
    rw [writeAll, if_neg hdata, hx, writeAll, if_neg hdata, hy]
    rcases outcome with failure | _ | n
    · exact .of_eq _ h'
    · exact .of_eq _ h'
    · have hshorter : (data.drop (n + 1)).length < data.length := by
        have := List.length_pos_iff.mpr hdata
        rw [List.length_drop]
        omega
      exact agree_writeAll hwrite h' (data.drop (n + 1))
termination_by data.length

variable {σ τ : Type}

/-! ## Pens -/

/-- Pens on related links that have come equally far. -/
structure Pen.Similar (S : Link σ → Link τ → Prop) (p : Pen σ) (q : Pen τ) : Prop where
  link : S p.link q.link
  failure_eq : q.failure = p.failure
  streamed_eq : q.streamed = p.streamed

namespace Pen.Similar

variable {S : Link σ → Link τ → Prop} {p : Pen σ} {q : Pen τ}

theorem on {l : Link σ} {k : Link τ} (h : S l k) : Similar S (Pen.on l) (Pen.on k) := ⟨h, rfl, rfl⟩

theorem fail (h : Similar S p q) (failure : TransportFailure) :
    Similar S (p.fail failure) (q.fail failure) :=
  ⟨h.link, by simp only [Pen.fail, h.failure_eq], h.streamed_eq⟩

/-- A body is told the same of its writes, and so it makes the same ones. -/
theorem stream {emit : Pen σ → Bytes → Pen σ} {emit' : Pen τ → Bytes → Pen τ}
    (hemit : ∀ {p q}, Similar S p q → ∀ data, Similar S (emit p data) (emit' q data))
    (h : Similar S p q) (emission : Emission) :
    Agree (Similar S) (Pen.stream emit emission p) (Pen.stream emit' emission q) := by
  induction emission generalizing p q with
  | done => exact .of_eq _ h
  | failed failure => exact .of_eq _ h
  | write data next ih =>
      have h' := hemit h data
      have hstatus : (emit' q data).status = (emit p data).status := by
        simp only [Pen.status, h'.failure_eq]
      unfold Pen.stream
      rw [hstatus]
      exact ih _ h'

end Pen.Similar

variable [SecureTransport σ] [SecureTransport τ]

/-- Links that cannot be told apart by reading: reads on both have the same answer, and whatever
is done next they stay related. -/
structure Link.Hearing (S : Link σ → Link τ → Prop) : Prop where
  phase_eq {l : Link σ} {k : Link τ} : S l k → k.phase = l.phase
  read {l : Link σ} {k : Link τ} : S l k → ∀ n, Agree S (l.read n) (k.read n)
  enter {l : Link σ} {k : Link τ} : S l k → ∀ phase, S (l.enter phase) (k.enter phase)
  log {l : Link σ} {k : Link τ} : S l k → ∀ level texts, S (l.log level texts) (k.log level texts)

/-- Links that cannot be told apart at all. -/
structure Link.Simulation (S : Link σ → Link τ → Prop) : Prop extends Link.Hearing S where
  write {l : Link σ} {k : Link τ} : S l k → ∀ data, Agree S (l.write data) (k.write data)
  flush {l : Link σ} {k : Link τ} : S l k → Agree S l.flush k.flush

variable {S : Link σ → Link τ → Prop} {l : Link σ} {k : Link τ}

/-! ## Requests -/

namespace Pen.Similar

variable {p : Pen σ} {q : Pen τ} (hS : Link.Simulation S)
include hS

theorem put (h : Similar S p q) (piece : Bytes) : Similar S (p.put piece) (q.put piece) := by
  unfold Pen.put
  rw [h.failure_eq]
  split
  · exact h
  · obtain ⟨outcome, l', k', hl, hk, h'⟩ := agree_writeAll hS.write h.link piece
    unfold Link.writeAll
    rw [hl, hk]
    cases outcome with
    | error failure => exact ⟨h', rfl, h.streamed_eq⟩
    | ok value => exact ⟨h', rfl, h.streamed_eq⟩

theorem putAll (h : Similar S p q) (pieces : List Bytes) :
    Similar S (p.putAll pieces) (q.putAll pieces) := by
  induction pieces generalizing p q with
  | nil => exact h
  | cons piece more ih => exact ih (h.put hS piece)

theorem flush (h : Similar S p q) : Similar S p.flush q.flush := by
  unfold Pen.flush
  rw [h.failure_eq]
  split
  · exact h
  · obtain ⟨outcome, l', k', hl, hk, h'⟩ := hS.flush h.link
    rw [hl, hk]
    cases outcome with
    | error failure => exact ⟨h', rfl, h.streamed_eq⟩
    | ok value => exact ⟨h', rfl, h.streamed_eq⟩

theorem putFragment (h : Similar S p q) (data : Bytes) :
    Similar S (p.putFragment data) (q.putFragment data) := by
  have h' := h.put hS data
  refine ⟨h'.link, h'.failure_eq, ?_⟩
  show (q.put data).streamed + _ = (p.put data).streamed + _
  rw [h'.streamed_eq]

theorem putBody (h : Similar S p q) (body : Body) :
    Similar S (p.putBody body) (q.putBody body) := by
  unfold Pen.putBody
  rw [h.failure_eq]
  split
  · exact h
  · cases body.size with
    | some declared =>
        obtain ⟨outcome, p', q', hp, hq, h'⟩ :=
          stream (fun h data => putFragment hS h data) h body.emission
        dsimp only
        rw [hp, hq]
        cases outcome with
        | error failure => exact h'.fail failure
        | ok value =>
            dsimp only
            rw [h'.streamed_eq]
            split
            · exact h'
            · exact h'.fail _
    | none =>
        obtain ⟨outcome, p', q', hp, hq, h'⟩ :=
          stream (fun h data => h.putAll hS (Pen.chunkPieces data)) h body.emission
        dsimp only
        unfold Pen.putChunk
        rw [hp, hq]
        cases outcome with
        | error failure => exact h'.fail failure
        | ok value => exact h'.put hS Pen.lastChunk

theorem streamed (h : S l k) (r : Request) : Similar S (r.streamed l) (r.streamed k) := by
  have hhead := (on h).putAll hS r.headPieces
  unfold Request.streamed
  cases r.body with
  | none => exact hhead
  | some body => exact hhead.putBody hS body

end Pen.Similar

namespace Link

/-- A guard sees the phase and nothing else. -/
theorem Hearing.ensureReusable_eq (hS : Hearing S) (h : S l k) :
    k.connection.ensureReusable = l.connection.ensureReusable := by
  have hphase : k.connection.phase = l.connection.phase := hS.phase_eq h
  simp only [Connection.ensureReusable, hphase]

theorem Simulation.writeRequest (hS : Simulation S) (h : S l k) (r : Request) :
    Agree S (r.write l) (r.write k) := by
  by_cases hidle : l.phase = .idle
  · have hpen := (Pen.Similar.streamed hS h r).flush hS
    rw [r.write_of_idle hidle, r.write_of_idle (hS.phase_eq h ▸ hidle), hpen.failure_eq]
    cases (r.streamed l).flush.failure with
    | none => exact .of_eq _ (hS.log hpen.link _ _)
    | some failure => exact .of_eq _ (hS.log (hS.enter hpen.link .poisoned) _ _)
  · obtain ⟨why, hwhy⟩ := Connection.ensureReusable_of_not_idle hidle
    unfold Request.write
    rw [hS.ensureReusable_eq h, hwhy]
    exact .of_eq _ h

/-! ## Responses -/

namespace Hearing

variable (hS : Hearing S)
include hS

theorem receive {l : Link σ} {k : Link τ} (h : S l k) (capacity : Nat) (received : Bytes) :
    Agree S (Head.receive l capacity received) (Head.receive k capacity received) := by
  rw [Head.receive, Head.receive]
  cases HeadScan.of received with
  | malformed fault => exact .of_eq _ h
  | complete line block rest =>
      dsimp only
      cases block.fault? with
      | some fault => exact .of_eq _ h
      | none => exact .of_eq _ h
  | incomplete statusSeen =>
      dsimp only
      by_cases hfull : capacity ≤ received.length
      · rw [if_pos hfull, if_pos hfull]
        exact .of_eq _ h
      · obtain ⟨outcome, l', k', hl, hk, h'⟩ := hS.read h (capacity - received.length)
        rw [if_neg hfull, if_neg hfull, hl, hk]
        match outcome with
        | .error failure => exact .of_eq _ h'
        | .ok [] => exact .of_eq _ h'
        | .ok (b :: bytes) => exact receive h' capacity (received ++ b :: bytes)
termination_by capacity - received.length
decreasing_by
  simp only [List.length_append, List.length_cons]
  omega

theorem readResponse (h : S l k) (method : Method) (capacity : Nat) :
    Agree S (Response.read l method capacity) (Response.read k method capacity) := by
  unfold Response.read
  rw [hS.ensureReusable_eq h]
  cases l.connection.ensureReusable with
  | error failure => exact .of_eq _ h
  | ok value =>
      obtain ⟨outcome, l', k', hl, hk, h'⟩ := hS.receive h capacity []
      dsimp only
      rw [hl, hk]
      cases outcome with
      | error failure => exact .of_eq _ (hS.log (hS.enter h' .poisoned) _ _)
      | ok head => exact .of_eq _ (hS.log (hS.enter h' _) _ _)

/-! ## Sources -/

theorem sourceRead (h : S l k) (s : Source) (n : Nat) :
    ∃ received s' l' k', s.read l n = (received, s', l') ∧ s.read k n = (received, s', k') ∧
      S l' k' := by
  obtain ⟨received, l', k', hl, hk, h'⟩ := hS.read h n
  unfold Source.read
  rw [hl, hk]
  cases s.peek n with
  | nil => exact ⟨received, s, l', k', rfl, rfl, h'⟩
  | cons b more => exact ⟨.ok (b :: more), _, l, k, rfl, rfl, h⟩

theorem sourceReadByte (h : S l k) (s : Source) :
    ∃ received s' l' k', s.readByte l = (received, s', l') ∧ s.readByte k = (received, s', k') ∧
      S l' k' := by
  unfold Source.readByte
  cases s.peek 1 with
  | cons b more => exact ⟨.ok (some b), _, l, k, rfl, rfl, h⟩
  | nil =>
      dsimp only
      by_cases hroom : s.room = 0
      · obtain ⟨received, l', k', hl, hk, h'⟩ := hS.read h 1
        rw [if_pos hroom, if_pos hroom, hl, hk]
        match received with
        | .error failure => exact ⟨_, _, l', k', rfl, rfl, h'⟩
        | .ok [] => exact ⟨_, _, l', k', rfl, rfl, h'⟩
        | .ok (b :: rest) => exact ⟨_, _, l', k', rfl, rfl, h'⟩
      · obtain ⟨received, l', k', hl, hk, h'⟩ := hS.read h s.room
        rw [if_neg hroom, if_neg hroom, hl, hk]
        match received with
        | .error failure => exact ⟨_, _, l', k', rfl, rfl, h'⟩
        | .ok [] => exact ⟨_, _, l', k', rfl, rfl, h'⟩
        | .ok (b :: rest) => exact ⟨_, _, l', k', rfl, rfl, h'⟩

end Hearing

theorem Simulation.send (hS : Simulation S) (h : S l k) (r : Request) (capacity : Nat) :
    Agree S (l.send r capacity) (k.send r capacity) := by
  obtain ⟨outcome, l', k', hl, hk, h'⟩ := hS.writeRequest h r
  unfold Link.send
  rw [hl, hk]
  cases outcome with
  | error failure => exact .of_eq _ h'
  | ok value => exact hS.readResponse h' r.method capacity

end Link

/-! ## Readers -/

theorem Reading.collect_of_error {x y : Reading σ} {out : Nat} {failure : Failure}
    (hroom : ¬ x.reader.source.capacity ≤ out)
    (h : (x.mapSource fun s => { s with floor := out }).read (x.reader.source.capacity - out)
      = (.error failure, y)) : x.collect out = (.error failure, y) := by
  rw [Reading.collect, if_neg hroom]
  split <;> rename_i heq <;> rw [h] at heq <;> cases heq
  rfl

/-- One reader on related links. -/
structure Reading.Similar (S : Link σ → Link τ → Prop) (x : Reading σ) (y : Reading τ) : Prop where
  reader_eq : y.reader = x.reader
  link : S x.link y.link

namespace Reading.Similar

variable {x : Reading σ} {y : Reading τ}

omit [SecureTransport σ] [SecureTransport τ] in
theorem resume (h : Similar S x y) (source : Source) (hlink : S l k) :
    Similar S (x.resume source l) (y.resume source k) :=
  ⟨by simp only [Reading.resume, h.reader_eq], hlink⟩

omit [SecureTransport σ] [SecureTransport τ] in
theorem moveTo (h : Similar S x y) (progress : Progress) :
    Similar S (x.moveTo progress) (y.moveTo progress) :=
  ⟨by simp only [Reading.moveTo, h.reader_eq], h.link⟩

omit [SecureTransport σ] [SecureTransport τ] in
theorem mapSource (h : Similar S x y) (f : Source → Source) :
    Similar S (x.mapSource f) (y.mapSource f) :=
  ⟨by simp only [Reading.mapSource, h.reader_eq], h.link⟩

variable (hS : Link.Hearing S)
include hS

theorem finish (h : Similar S x y) (phase : Phase) : Similar S (x.finish phase) (y.finish phase) :=
  ⟨(h.moveTo .finished).reader_eq, hS.enter h.link phase⟩

theorem fail {α : Type} (h : Similar S x y) (failure : Failure) :
    Agree (Similar S) (x.fail failure : Except Failure α × Reading σ) (y.fail failure) := by
  refine .of_eq _ ⟨(h.moveTo (.failed failure)).reader_eq, ?_⟩
  rw [h.reader_eq]
  exact hS.enter (hS.log h.link _ _) .poisoned

/-- The source of a reader reads the same on both links. -/
theorem sourceRead (h : Similar S x y) (n : Nat) : ∃ received source l k,
    x.reader.source.read x.link n = (received, source, l) ∧
    y.reader.source.read y.link n = (received, source, k) ∧
    Similar S (x.resume source l) (y.resume source k) := by
  obtain ⟨received, source, l, k, hl, hk, h'⟩ := hS.sourceRead h.link x.reader.source n
  rw [h.reader_eq]
  exact ⟨received, source, l, k, hl, hk, h.resume source h'⟩

theorem sourceReadByte (h : Similar S x y) {received : Except TransportFailure (Option UInt8)}
    {source : Source} {l : Link σ}
    (hx : x.reader.source.readByte x.link = (received, source, l)) : ∃ k,
      y.reader.source.readByte y.link = (received, source, k) ∧
        Similar S (x.resume source l) (y.resume source k) := by
  obtain ⟨received', source', l', k, hl, hk, h'⟩ := hS.sourceReadByte h.link x.reader.source
  rw [hx] at hl
  cases hl
  rw [h.reader_eq]
  exact ⟨k, hk, h.resume source h'⟩

theorem scan {s α : Type} (step : s → UInt8 → Verdict s α) (state : s) (h : Similar S x y) :
    Agree (Similar S) (Reading.scan step state x) (Reading.scan step state y) := by
  fun_induction Reading.scan step state x generalizing y with
  | case1 state x failure source link hb =>
      obtain ⟨k, hk, h'⟩ := h.sourceReadByte hS hb
      rw [scan_of_failure hk]
      exact h'.fail hS _
  | case2 state x source link hb =>
      obtain ⟨k, hk, h'⟩ := h.sourceReadByte hS hb
      rw [scan_of_end hk]
      exact h'.fail hS _
  | case3 state x b source link hb next hs ih =>
      obtain ⟨k, hk, h'⟩ := h.sourceReadByte hS hb
      rw [scan_of_byte hk, hs]
      exact ih h'
  | case4 state x b source link hb value hs =>
      obtain ⟨k, hk, h'⟩ := h.sourceReadByte hS hb
      rw [scan_of_byte hk, hs]
      exact .of_eq _ h'
  | case5 state x b source link hb fault hs =>
      obtain ⟨k, hk, h'⟩ := h.sourceReadByte hS hb
      rw [scan_of_byte hk, hs]
      exact h'.fail hS _

theorem readFixed (h : Similar S x y) (outstanding n : Nat) :
    Agree (Similar S) (x.readFixed outstanding n) (y.readFixed outstanding n) := by
  obtain ⟨received, source, l, k, hl, hk, h'⟩ := h.sourceRead hS (min n outstanding)
  unfold Reading.readFixed
  rw [hl, hk]
  match received with
  | .error failure => exact h'.fail hS _
  | .ok [] => exact h'.fail hS _
  | .ok (b :: bytes) =>
      refine .of_eq _ ?_
      split
      · exact h'.finish hS .idle
      · exact h'.moveTo _

theorem readToClose (h : Similar S x y) (n : Nat) :
    Agree (Similar S) (x.readToClose n) (y.readToClose n) := by
  obtain ⟨received, source, l, k, hl, hk, h'⟩ := h.sourceRead hS n
  unfold Reading.readToClose
  rw [hl, hk]
  match received with
  | .error failure => exact h'.fail hS _
  | .ok [] => exact .of_eq _ (h'.finish hS .closed)
  | .ok (b :: bytes) => exact .of_eq _ h'

theorem readData (h : Similar S x y) (outstanding n : Nat) :
    Agree (Similar S) (x.readData outstanding n) (y.readData outstanding n) := by
  obtain ⟨received, source, l, k, hl, hk, h'⟩ := h.sourceRead hS (min n outstanding)
  unfold Reading.readData
  rw [hl, hk]
  match received with
  | .error failure => exact h'.fail hS _
  | .ok [] => exact h'.fail hS _
  | .ok (b :: bytes) => exact .of_eq _ (h'.moveTo _)

theorem readTrailers (h : Similar S x y) :
    Agree (Similar S) x.readTrailers y.readTrailers := by
  obtain ⟨outcome, x', y', hx, hy, h'⟩ := h.scan hS Trailers.step .lineStart
  unfold Reading.readTrailers
  rw [hx, hy]
  cases outcome with
  | error failure => exact .of_eq _ h'
  | ok value => exact .of_eq _ (h'.finish hS .idle)

theorem log (h : Similar S x y) (level : Level) (texts : List Bytes) :
    Similar S { x with link := x.link.log level texts }
      { y with link := y.link.log level texts } :=
  ⟨h.reader_eq, hS.log h.link level texts⟩

theorem readChunk (h : Similar S x y) (n : Nat) :
    Agree (Similar S) (x.readChunk n) (y.readChunk n) := by
  obtain ⟨outcome, x', y', hx, hy, h'⟩ := h.scan hS SizeLine.step .start
  unfold Reading.readChunk
  rw [hx, hy]
  cases outcome with
  | error failure => exact .of_eq _ h'
  | ok size =>
      have hlogged := h'.log hS .trace
        [ascii "body: chunk of ", Numeral.decimal size, ascii " bytes"]
      dsimp only
      split
      · exact (hlogged.moveTo _).readTrailers hS
      · exact (hlogged.moveTo _).readData hS size n

theorem readDataEnd (h : Similar S x y) (n : Nat) :
    Agree (Similar S) (x.readDataEnd n) (y.readDataEnd n) := by
  obtain ⟨outcome, x', y', hx, hy, h'⟩ := h.scan hS DataEnd.step .wantsCr
  unfold Reading.readDataEnd
  rw [hx, hy]
  cases outcome with
  | error failure => exact .of_eq _ h'
  | ok value => exact (h'.moveTo _).readChunk hS n

theorem readChunked (h : Similar S x y) (n : Nat) (place : ChunkPlace) :
    Agree (Similar S) (x.readChunked n place) (y.readChunked n place) := by
  cases place with
  | size => exact h.readChunk hS n
  | data outstanding => exact h.readData hS outstanding n
  | dataEnd => exact h.readDataEnd hS n
  | trailers => exact h.readTrailers hS

theorem read (h : Similar S x y) (n : Nat) : Agree (Similar S) (x.read n) (y.read n) := by
  unfold Reading.read
  rw [h.reader_eq]
  cases x.reader.progress with
  | failed failure => exact .of_eq _ h
  | finished => exact .of_eq _ h
  | fixed outstanding =>
      dsimp only
      split
      · exact .of_eq _ h
      · exact h.readFixed hS outstanding n
  | chunked place =>
      dsimp only
      split
      · exact .of_eq _ h
      · exact h.readChunked hS n place
  | toClose =>
      dsimp only
      split
      · exact .of_eq _ h
      · exact h.readToClose hS n

/-! ### To the end -/

theorem readAll (h : Similar S x y) (n : Nat) : ∃ pieces outcome x' y',
    x.readAll n = (pieces, outcome, x') ∧ y.readAll n = (pieces, outcome, y') ∧
      Similar S x' y' := by
  fun_induction Reading.readAll x n generalizing y with
  | case1 x failure x' hread =>
      obtain ⟨outcome, x₁, y₁, hx, hy, h'⟩ := h.read hS n
      rw [hread] at hx
      cases hx
      exact ⟨_, _, _, y₁, rfl, readAll_of_error hy, h'⟩
  | case2 x x' hread =>
      obtain ⟨outcome, x₁, y₁, hx, hy, h'⟩ := h.read hS n
      rw [hread] at hx
      cases hx
      exact ⟨_, _, _, y₁, rfl, readAll_of_end hy, h'⟩
  | case3 x b bytes x' hread more outcome z hall ih =>
      obtain ⟨outcome', x₁, y₁, hx, hy, h'⟩ := h.read hS n
      rw [hread] at hx
      cases hx
      obtain ⟨pieces, outcome₂, x₂, y₂, hx₂, hy₂, h₂⟩ := ih h'
      rw [hall] at hx₂
      cases hx₂
      refine ⟨_, _, _, y₂, rfl, ?_, h₂⟩
      rw [readAll_of_piece hy (List.cons_ne_nil b bytes), hy₂]

/-- Reading into the buffer asks for the same bytes on both sides and stores them alike. -/
theorem collect {x : Reading σ} {y : Reading τ} (h : Similar S x y) (out : Nat) :
    Agree (Similar S) (x.collect out) (y.collect out) := by
  have hread {x : Reading σ} {y : Reading τ} (h : Similar S x y) (out : Nat) :=
    (h.mapSource fun s => { s with floor := out }).read hS
  fun_induction Reading.collect x out generalizing y with
  | case1 x out hcap failure x' heq =>
      obtain ⟨outcome, x₁, y₁, hx, hy, h'⟩ := hread h out 1
      rw [heq] at hx
      cases hx
      rw [← h.reader_eq] at hcap
      rw [Reading.collect, if_pos hcap, hy]
      exact .of_eq _ h'
  | case2 x out hcap x' heq =>
      obtain ⟨outcome, x₁, y₁, hx, hy, h'⟩ := hread h out 1
      rw [heq] at hx
      cases hx
      rw [← h.reader_eq] at hcap
      rw [Reading.collect, if_pos hcap, hy]
      exact .of_eq _ h'
  | case3 x out hcap b bytes x' heq =>
      obtain ⟨outcome, x₁, y₁, hx, hy, h'⟩ := hread h out 1
      rw [heq] at hx
      cases hx
      rw [← h.reader_eq] at hcap
      rw [Reading.collect, if_pos hcap, hy]
      exact h'.fail hS _
  | case4 x out hcap failure x' heq =>
      obtain ⟨outcome, x₁, y₁, hx, hy, h'⟩ := hread h out (x.reader.source.capacity - out)
      rw [heq] at hx
      cases hx
      rw [← h.reader_eq] at hcap hy
      rw [collect_of_error hcap hy]
      exact .of_eq _ h'
  | case5 x out hcap x' heq =>
      obtain ⟨outcome, x₁, y₁, hx, hy, h'⟩ := hread h out (x.reader.source.capacity - out)
      rw [heq] at hx
      cases hx
      rw [← h.reader_eq] at hcap hy
      rw [collect_of_end (by rwa [demand, if_neg hcap])]
      exact .of_eq _ h'
  | case6 x out hcap b bytes x' heq ih =>
      obtain ⟨outcome, x₁, y₁, hx, hy, h'⟩ := hread h out (x.reader.source.capacity - out)
      rw [heq] at hx
      cases hx
      rw [← h.reader_eq] at hcap hy
      rw [collect_of_piece (Nat.not_le.mp hcap) (by rwa [demand, if_neg hcap])
        (List.cons_ne_nil b bytes)]
      exact ih (h'.mapSource _)

theorem readToEnd (h : Similar S x y) : Agree (Similar S) x.readToEnd y.readToEnd := by
  obtain ⟨outcome, x', y', hx, hy, h'⟩ := (h.mapSource Source.compact).collect hS 0
  unfold Reading.readToEnd
  rw [h.reader_eq, hx, hy]
  split
  · exact .of_eq _ h
  · cases outcome with
    | error failure => exact .of_eq _ h'
    | ok out =>
        dsimp only
        rw [h'.reader_eq]
        exact .of_eq _ h'

theorem discard (h : Similar S x y) : Agree (Similar S) x.discard y.discard := by
  obtain ⟨pieces, outcome, x', y', hx, hy, h'⟩ := h.readAll hS discardStep
  unfold Reading.discard
  rw [hx, hy]
  cases outcome with
  | error failure => exact .of_eq _ h'
  | ok value => exact .of_eq _ h'

/-- A call on a reader has the same effect on both sides. -/
theorem call {i : Nat} {c : Call} {f : Reading σ → Reading σ} {g : Reading τ → Reading τ}
    (hf : Usage.onReader? c = some (i, f)) (hg : Usage.onReader? c = some (i, g))
    (h : Similar S x y) : Similar S (f x) (g y) := by
  cases c <;> cases hf <;> cases hg
  · exact (h.read hS _).snd
  · exact (h.readToEnd hS).snd
  · exact (h.discard hS).snd

end Reading.Similar

/-! ## Usages -/

/-- A call that reads from its connection at most, and changes phase and journal. -/
def Call.hears : Call → Bool
  | .readResponse _ _ | .takeBody _ | .readBody _ _ | .readToEnd _ | .discard _ | .read _ => true
  | .writeRequest _ | .send _ _ | .write _ | .flush | .close | .intoBuffered _ => false

def Call.isClose : Call → Bool
  | .close => true
  | _ => false

theorem Call.eq_close {call : Call} (h : call.isClose = true) : call = .close := by
  cases call <;> first | rfl | cases h

omit [SecureTransport σ] in
/-- A connection that coalesces already is not converted. -/
theorem Link.intoBuffered_of_kind {l : Link σ} (h : l.connection.kind ≠ .plain) (capacity : Nat) :
    l.intoBuffered capacity = l := by
  obtain ⟨⟨form, phase, holdsLease⟩, scratch, wire, journal⟩ := l
  cases form with
  | plain => exact absurd rfl h
  | buffered buffer => rfl
  | secured session => rfl

/-- The same was obtained from related links. -/
structure Usage.Similar (S : Link σ → Link τ → Prop) (u : Usage σ) (v : Usage τ) : Prop where
  link : S u.link v.link
  responses_eq : v.responses = u.responses
  readers_eq : v.readers = u.readers

namespace Usage

section

omit [SecureTransport σ] [SecureTransport τ]

theorem Similar.of_link {u : Usage σ} {v : Usage τ} (h : Similar S u v) (hlink : S l k) :
    Similar S { u with link := l } { v with link := k } :=
  ⟨hlink, h.responses_eq, h.readers_eq⟩

theorem Similar.keep {u : Usage σ} {v : Usage τ} (h : Similar S u v)
    {read : Except Failure Response × Link σ} {read' : Except Failure Response × Link τ}
    (hread : Agree S read read') : Similar S (u.keep read) (v.keep read') := by
  obtain ⟨outcome, l, k, rfl, rfl, hlink⟩ := hread
  exact ⟨hlink, by simp only [Usage.keep, h.responses_eq], h.readers_eq⟩

theorem Similar.takeBody {u : Usage σ} {v : Usage τ} (h : Similar S u v) (i : Nat) :
    Similar S (u.takeBody i) (v.takeBody i) := by
  unfold Usage.takeBody
  rw [h.responses_eq, h.readers_eq]
  cases u.responses[i]? with
  | none => exact h
  | some r => exact ⟨h.link, rfl, rfl⟩

end

/-- Calls that read at most lead to related links. -/
theorem Similar.hear {u : Usage σ} {v : Usage τ} (hS : Link.Hearing S) (h : Similar S u v)
    {call : Call} (hcall : call.hears = true) : Similar S (u.step call) (v.step call) := by
  have hreading {i : Nat} {f : Reading σ → Reading σ} {g : Reading τ → Reading τ}
      (hf : onReader? call = some (i, f)) (hg : onReader? call = some (i, g)) :
      Similar S (u.reading i f) (v.reading i g) := by
    cases hr : u.readers[i]? with
    | none =>
        rw [reading_of_none hr, reading_of_none (h.readers_eq ▸ hr)]
        exact h
    | some r =>
        have hx : Reading.Similar S ⟨r, u.link⟩ ⟨r, v.link⟩ := ⟨rfl, h.link⟩
        have hx' := hx.call hS hf hg
        rw [reading_of_some hr, reading_of_some (h.readers_eq ▸ hr), h.readers_eq]
        exact ⟨hx'.link, h.responses_eq, by rw [hx'.reader_eq]⟩
  cases call with
  | readResponse method capacity => exact h.keep (hS.readResponse h.link method capacity)
  | takeBody i => exact h.takeBody i
  | readBody i n => exact hreading rfl rfl
  | readToEnd i => exact hreading rfl rfl
  | discard i => exact hreading rfl rfl
  | read n => exact h.of_link (hS.read h.link n).snd
  | _ => cases hcall

/-- **Calls on related links** lead to related links: all but those which close a connection
or change its form. -/
theorem Similar.step {u : Usage σ} {v : Usage τ} (hS : Link.Simulation S) (h : Similar S u v)
    (call : Call) (hclose : call = .close → S u.link.close v.link.close)
    (hconvert : ∀ capacity, call = .intoBuffered capacity →
      S (u.link.intoBuffered capacity) (v.link.intoBuffered capacity)) :
    Similar S (u.step call) (v.step call) := by
  cases call with
  | writeRequest request => exact h.of_link (hS.writeRequest h.link request).snd
  | send request capacity => exact h.keep (hS.send h.link request capacity)
  | write data => exact h.of_link (hS.write h.link data).snd
  | flush => exact h.of_link (hS.flush h.link).snd
  | close => exact h.of_link (hclose rfl)
  | intoBuffered capacity => exact h.of_link (hconvert capacity rfl)
  | _ => exact h.hear hS.toHearing rfl

end Usage

/-! ## Invariants -/

/-- What reading from a link, entering a phase and noting something preserve. -/
structure Link.Heard (P : Link σ → Prop) : Prop where
  read {l : Link σ} : P l → ∀ n, P (l.read n).2
  enter {l : Link σ} : P l → ∀ phase, P (l.enter phase)
  log {l : Link σ} : P l → ∀ level texts, P (l.log level texts)

/-- What writing and flushing preserve as well. -/
structure Link.Invariant (P : Link σ → Prop) : Prop extends Link.Heard P where
  write {l : Link σ} : P l → ∀ data, P (l.write data).2
  flush {l : Link σ} : P l → P l.flush.2

/-- Equal links of which an invariant holds. -/
theorem Link.Heard.hearing {P : Link σ → Prop} (hP : Heard P) :
    Hearing fun l k : Link σ => k = l ∧ P l where
  phase_eq := by
    rintro l _ ⟨rfl, -⟩
    rfl
  read := by
    rintro l _ ⟨rfl, hl⟩ n
    exact ⟨_, _, _, rfl, rfl, rfl, hP.read hl n⟩
  enter := by
    rintro l _ ⟨rfl, hl⟩ phase
    exact ⟨rfl, hP.enter hl phase⟩
  log := by
    rintro l _ ⟨rfl, hl⟩ level texts
    exact ⟨rfl, hP.log hl level texts⟩

theorem Link.Heard.readResponse {P : Link σ → Prop} (hP : Heard P) {l : Link σ} (h : P l)
    (method : Method) (capacity : Nat) : P (Response.read l method capacity).2 := by
  have hl : l = l ∧ P l := ⟨rfl, h⟩
  exact (hP.hearing.readResponse hl method capacity).snd.2

theorem Link.Invariant.simulation {P : Link σ → Prop} (hP : Invariant P) :
    Simulation fun l k : Link σ => k = l ∧ P l where
  toHearing := hP.hearing
  write := by
    rintro l _ ⟨rfl, hl⟩ data
    exact ⟨_, _, _, rfl, rfl, rfl, hP.write hl data⟩
  flush := by
    rintro l _ ⟨rfl, hl⟩
    exact ⟨_, _, _, rfl, rfl, rfl, hP.flush hl⟩

namespace Usage

theorem heard_step {P : Link σ → Prop} (hP : Link.Heard P) {u : Usage σ} (h : P u.link)
    {call : Call} (hcall : call.hears = true) : P (u.step call).link := by
  have hu : Similar (fun l k : Link σ => k = l ∧ P l) u u := ⟨⟨rfl, h⟩, rfl, rfl⟩
  exact (hu.hear hP.hearing hcall).link.2

/-- **Calls preserve an invariant** of the five things, if closing and converting do. -/
theorem invariant_step {P : Link σ → Prop} (hP : Link.Invariant P) {u : Usage σ}
    (h : P u.link) (call : Call) (hclose : call = .close → P u.link.close)
    (hconvert : ∀ capacity, call = .intoBuffered capacity → P (u.link.intoBuffered capacity)) :
    P (u.step call).link := by
  have hu : Similar (fun l k : Link σ => k = l ∧ P l) u u := ⟨⟨rfl, h⟩, rfl, rfl⟩
  exact (hu.step hP.simulation call (fun hcall => ⟨rfl, hclose hcall⟩)
    fun capacity hcall => ⟨rfl, hconvert capacity hcall⟩).link.2

end Usage

end HttpExchange
