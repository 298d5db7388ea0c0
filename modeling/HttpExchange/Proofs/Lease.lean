import HttpExchange.Proofs.Lending

/-!
# The lease of a client's memory

A client with a secure configuration lends its memory to one connection at a time. The flag
that says so travels with the connection: through every call on it, through moves of it and
of what holds it, until it is closed or destroyed.

* `Link.Tied`: what calls leave of a lease, and of the memory that was lent.
* `Lending.Lent`: the invariant. Each connection holds the lease exactly until it is closed,
  and the flag counts the open ones.
* `Lending.lease_exact`: so the flag is set exactly while there is one open connection, and
  there is never more than one.
-/

namespace HttpExchange

/-! ## Write buffers in a lent memory -/

namespace WriteBuffer.Over

variable {σ : Type}

/-- The lease of the memory stands, the memory has not shrunk, and what is pending in it is
still there. -/
structure Continues (o o' : Over σ) : Prop where
  held_eq : o'.scratch.held = o.scratch.held
  length_le : o.scratch.bytes.length ≤ o'.scratch.bytes.length
  proper : o.Proper → o'.Proper

theorem Continues.refl (o : Over σ) : Continues o o := ⟨rfl, Nat.le_refl _, id⟩

theorem Continues.trans {o₁ o₂ o₃ : Over σ} (h : Continues o₁ o₂) (h' : Continues o₂ o₃) :
    Continues o₁ o₃ :=
  ⟨h'.held_eq.trans h.held_eq, Nat.le_trans h.length_le h'.length_le, h'.proper ∘ h.proper⟩

theorem continues_wire (o : Over σ) (wire : σ) : Continues o { o with wire } :=
  ⟨rfl, Nat.le_refl _, fun h => ⟨h.pending_le, h.stored⟩⟩

theorem continues_fill (o : Over σ) (data : Bytes) : Continues o (o.fill data).2 := by
  refine ⟨rfl, ?_, fun h => proper_fill h data⟩
  show _ ≤ (Bytes.splice _ _ _).length
  simp only [Bytes.splice, List.length_append, List.length_take, List.length_drop]
  omega

theorem continues_drainBy (send : σ → Bytes → Except TransportFailure Unit × σ) (o : Over σ) :
    Continues o (o.drainBy send).2 :=
  ⟨rfl, Nat.le_refl _, fun _ => ⟨Nat.zero_le _, Nat.zero_le _⟩⟩

variable [SecureTransport σ]

theorem continues_drainFull (o : Over σ) : Continues o o.drainFull.2 := by
  unfold drainFull
  split
  · exact continues_drainBy _ o
  · exact .refl o

theorem continues_write (o : Over σ) (data : Bytes) : Continues o (o.write data).2 := by
  have hfirst := continues_drainFull o
  unfold write
  split
  · exact .refl o
  split
  · exact continues_wire o _
  · split <;> rename_i heq <;> rw [heq] at hfirst
    · exact hfirst
    · rename_i o₁
      have hfill := hfirst.trans (continues_fill o₁ data)
      have hsecond := hfill.trans (continues_drainFull (o₁.fill data).2)
      dsimp only
      split <;> rename_i heq <;> rw [heq] at hsecond <;> exact hsecond

theorem continues_flush (o : Over σ) : Continues o o.flush.2 := by
  have hdrain := continues_drainBy (writeAll Transport.write) o
  unfold flush drain
  split <;> rename_i heq <;> rw [heq] at hdrain
  · exact hdrain
  · exact hdrain.trans (continues_wire _ _)

end WriteBuffer.Over

namespace SecureSession

open WriteBuffer.Over

variable {σ : Type} [SecureTransport σ]

theorem continues_drain (o : Over σ) : Continues o (drain o).2 := by
  unfold drain
  split
  · exact .refl o
  · exact continues_drainBy _ o

theorem continues_write (o : Over σ) (data : Bytes) : Continues o (write o data).2 := by
  have hdrain : Continues o (drainFull o).2 := by
    unfold drainFull
    split
    · exact continues_drain o
    · exact .refl o
  unfold write
  split
  · exact .refl o
  split
  · split
    · exact continues_wire o _
    · exact continues_wire o _
  · split <;> rename_i heq <;> rw [heq] at hdrain
    · exact hdrain
    · exact hdrain.trans (continues_fill _ data)

theorem continues_flush (o : Over σ) : Continues o (flush o).2 := by
  have hdrain := continues_drain o
  unfold flush
  split <;> rename_i heq <;> rw [heq] at hdrain
  · exact hdrain
  · exact hdrain.trans (continues_wire _ _)

end SecureSession

/-! ## Links in a lent memory -/

namespace Link

variable {σ : Type}

/-- What is pending in the memory of a link fits and is there. -/
def Fits (l : Link σ) : Prop :=
  match l.connection.form with
  | .plain => True
  | .buffered buffer => (l.buffering buffer).Proper
  | .secured session => (l.buffering session.buffer).Proper

/-- What calls leave of a lease, and of the memory that was lent. -/
structure Tied (l l' : Link σ) : Prop where
  holdsLease_eq : l'.connection.holdsLease = l.connection.holdsLease
  kind_eq : l'.connection.kind = l.connection.kind
  held_eq : l'.scratch.held = l.scratch.held
  length_le : l.scratch.bytes.length ≤ l'.scratch.bytes.length
  fits : l.Fits → l'.Fits

theorem Tied.refl (l : Link σ) : Tied l l := ⟨rfl, rfl, rfl, Nat.le_refl _, id⟩

theorem Tied.trans {l₁ l₂ l₃ : Link σ} (h : Tied l₁ l₂) (h' : Tied l₂ l₃) : Tied l₁ l₃ :=
  ⟨h'.holdsLease_eq.trans h.holdsLease_eq, h'.kind_eq.trans h.kind_eq, h'.held_eq.trans h.held_eq,
    Nat.le_trans h.length_le h'.length_le, h'.fits ∘ h.fits⟩

/-- Only form and memory matter. -/
theorem fits_of_eq {l l' : Link σ} (hform : l'.connection.form = l.connection.form)
    (hscratch : l'.scratch = l.scratch) (h : l.Fits) : l'.Fits := by
  obtain ⟨⟨form, phase, holdsLease⟩, scratch, wire, journal⟩ := l
  obtain ⟨⟨form', phase', holdsLease'⟩, scratch', wire', journal'⟩ := l'
  obtain rfl : form' = form := hform
  obtain rfl : scratch' = scratch := hscratch
  cases form' with
  | plain => trivial
  | buffered buffer => exact ⟨h.pending_le, h.stored⟩
  | secured session => exact ⟨h.pending_le, h.stored⟩

/-- What fits in a memory fits in a larger one. -/
theorem Fits.over {l : Link σ} (h : l.Fits) {memory : Scratch}
    (hle : l.scratch.bytes.length ≤ memory.bytes.length) : Fits { l with scratch := memory } := by
  obtain ⟨⟨form, phase, holdsLease⟩, scratch, wire, journal⟩ := l
  cases form with
  | plain => trivial
  | buffered buffer => exact ⟨h.pending_le, Nat.le_trans h.stored hle⟩
  | secured session => exact ⟨h.pending_le, Nat.le_trans h.stored hle⟩

theorem tied_wire (l : Link σ) (wire : σ) : Tied l { l with wire } :=
  ⟨rfl, rfl, rfl, Nat.le_refl _, fits_of_eq rfl rfl⟩

theorem tied_putBuffered {l : Link σ} {buffer : WriteBuffer} {o : WriteBuffer.Over σ}
    (hform : l.connection.form = .buffered buffer) (h : (l.buffering buffer).Continues o) :
    Tied l (l.putBuffered o) := by
  obtain ⟨⟨form, phase, holdsLease⟩, scratch, wire, journal⟩ := l
  obtain rfl : form = .buffered buffer := hform
  exact ⟨rfl, rfl, h.held_eq, h.length_le, h.proper⟩

theorem tied_putSecured {l : Link σ} {session : SecureSession} {o : WriteBuffer.Over σ}
    (hform : l.connection.form = .secured session)
    (h : (l.buffering session.buffer).Continues o) : Tied l (l.putSecured o) := by
  obtain ⟨⟨form, phase, holdsLease⟩, scratch, wire, journal⟩ := l
  obtain rfl : form = .secured session := hform
  exact ⟨rfl, rfl, h.held_eq, h.length_le, h.proper⟩

variable [SecureTransport σ]

theorem tied_write (l : Link σ) (data : Bytes) : Tied l (l.write data).2 := by
  unfold write
  split <;> rename_i hform
  · exact tied_wire l _
  · exact tied_putBuffered hform (WriteBuffer.Over.continues_write _ data)
  · split
    · exact tied_putSecured hform (SecureSession.continues_write _ data)
    · exact .refl l

theorem tied_flush (l : Link σ) : Tied l l.flush.2 := by
  unfold flush
  split <;> rename_i hform
  · exact tied_wire l _
  · exact tied_putBuffered hform (WriteBuffer.Over.continues_flush _)
  · split
    · exact tied_putSecured hform (SecureSession.continues_flush _)
    · exact .refl l

theorem invariant_tied (l₀ : Link σ) : Invariant (Tied l₀) where
  read {l} h n := by
    rw [read_eq]
    exact h.trans (tied_wire l _)
  write {l} h data := h.trans (tied_write l data)
  flush {l} h := h.trans (tied_flush l)
  enter h _ := h.trans ⟨rfl, rfl, rfl, Nat.le_refl _, fits_of_eq rfl rfl⟩
  log h _ _ := h.trans ⟨rfl, rfl, rfl, Nat.le_refl _, fits_of_eq rfl rfl⟩

/-! ### Giving the lease back -/

omit [SecureTransport σ] in
theorem held_releaseLease (l : Link σ) :
    l.releaseLease.scratch.held = (l.scratch.held && !l.connection.holdsLease) := by
  unfold releaseLease
  cases l.connection.holdsLease with
  | true => exact (Bool.and_false _).symm
  | false => exact (Bool.and_true _).symm

omit [SecureTransport σ] in
theorem holdsLease_releaseLease (l : Link σ) :
    l.releaseLease.connection.holdsLease = false := by
  unfold releaseLease
  split
  · rfl
  · rename_i h
    simpa using h

/-- Closing a stream leaves the lease to its connection. -/
theorem tied_closeStream (l : Link σ) : Tied l l.closeStream := by
  unfold closeStream
  split <;> rename_i hform
  · exact tied_wire l _
  · exact tied_putBuffered hform ⟨rfl, Nat.le_refl _, fun _ => ⟨Nat.zero_le _, Nat.zero_le _⟩⟩
  · split
    · obtain ⟨⟨form, phase, holdsLease⟩, scratch, wire, journal⟩ := l
      obtain rfl : form = .secured _ := hform
      refine ⟨rfl, rfl, rfl, Nat.le_refl _, ?_⟩
      intro h
      exact ⟨h.pending_le, h.stored⟩
    · exact tied_wire l _

theorem held_close (l : Link σ) :
    l.close.scratch.held = (l.scratch.held && !l.connection.holdsLease) := by
  unfold close
  rw [held_releaseLease]
  show (l.closeStream.scratch.held && !l.closeStream.connection.holdsLease) = _
  rw [l.tied_closeStream.held_eq, l.tied_closeStream.holdsLease_eq]

theorem kind_close (l : Link σ) : l.close.connection.kind = l.connection.kind := by
  have hstream := l.tied_closeStream.kind_eq
  unfold close releaseLease
  split <;> exact hstream

end Link

/-- Calls leave a lease alone unless they close the connection. -/
theorem Usage.tied_step {σ : Type} [SecureTransport σ] (u : Usage σ) {call : Call}
    (hcall : call.isClose = false) (hkind : u.link.connection.kind ≠ .plain) :
    Link.Tied u.link (u.step call).link := by
  refine invariant_step (Link.invariant_tied u.link) (.refl u.link) call ?_ ?_
  · rintro rfl
    cases hcall
  · intro capacity _
    rw [Link.intoBuffered_of_kind hkind]
    exact .refl u.link

/-! ## The invariant -/

/-- One element of a list changes. -/
theorem countP_set_add {α : Type} (q : α → Bool) {xs : List α} {i : Nat} {x : α}
    (h : xs[i]? = some x) (x' : α) :
    (xs.set i x').countP q + (q x).toNat = xs.countP q + (q x').toNat := by
  induction xs generalizing i with
  | nil => cases h
  | cons y ys ih =>
      cases i with
      | zero =>
          cases h
          rw [List.set_cons_zero, List.countP_cons, List.countP_cons]
          cases q x <;> cases q x' <;> rfl
      | succ i =>
          have hrest := ih h
          rw [List.set_cons_succ, List.countP_cons, List.countP_cons]
          omega

/-- A connection in the memory of its client, which it holds until it is closed. -/
structure Borrower.Sound {σ : Type} (b : Borrower σ) : Prop where
  shares : b.shares = true
  coalesces : b.usage.link.connection.kind ≠ .plain
  holdsLease_eq : b.usage.link.connection.holdsLease = !b.closed

namespace Borrower

variable {σ : Type} {b : Borrower σ}

theorem Sound.within_eq (h : b.Sound) (memory : Scratch) :
    b.within memory = { b.usage with link := { b.usage.link with scratch := memory } } := by
  unfold within
  rw [h.shares]
  rfl

theorem Sound.leaves_eq (h : b.Sound) (memory : Scratch) (l : Link σ) :
    b.leaves memory l = l.scratch := by
  unfold leaves
  rw [h.shares]
  rfl

theorem Sound.connection_within (h : b.Sound) (memory : Scratch) :
    (b.within memory).link.connection = b.usage.link.connection := by
  rw [h.within_eq]

theorem Sound.scratch_within (h : b.Sound) (memory : Scratch) :
    (b.within memory).link.scratch = memory := by
  rw [h.within_eq]

variable [SecureTransport σ]

/-- **What a call does to a lease**: nothing, unless it closes the connection that holds it. -/
theorem Sound.step (h : b.Sound) (memory : Scratch) (call : Call) :
    (b.after ((b.within memory).step call) call).Sound ∧
    ((b.within memory).step call).link.scratch.held =
      (memory.held && (b.closed || !call.isClose)) := by
  have hkind : (b.within memory).link.connection.kind ≠ .plain := by
    rw [h.connection_within]
    exact h.coalesces
  cases hcall : call.isClose with
  | false =>
      have htied := (b.within memory).tied_step hcall hkind
      refine ⟨⟨h.shares, ?_, ?_⟩, ?_⟩
      · show ((b.within memory).step call).link.connection.kind ≠ .plain
        rw [htied.kind_eq]
        exact hkind
      · show ((b.within memory).step call).link.connection.holdsLease = _
        rw [htied.holdsLease_eq, h.connection_within, h.holdsLease_eq, after, hcall,
          Bool.or_false]
      · rw [htied.held_eq, h.scratch_within, Bool.not_false, Bool.or_true, Bool.and_true]
  | true =>
      obtain rfl := Call.eq_close hcall
      refine ⟨⟨h.shares, ?_, ?_⟩, ?_⟩
      · show (b.within memory).link.close.connection.kind ≠ .plain
        rw [Link.kind_close]
        exact hkind
      · show (b.within memory).link.close.connection.holdsLease = !(b.closed || true)
        rw [Bool.or_true]
        exact Link.holdsLease_releaseLease _
      · show (b.within memory).link.close.scratch.held = _
        rw [Link.held_close, h.scratch_within, h.connection_within, h.holdsLease_eq,
          Bool.not_not, Bool.not_true, Bool.or_false]

end Borrower

namespace Lending

variable {σ : Type}

/-- A connection stands at the place that was not closed. -/
def standsOpen (place : Option (Borrower σ)) : Bool := place.any fun b => !b.closed

/-- The number of connections that are there and were not closed. -/
def opened (w : Lending σ) : Nat := w.places.countP standsOpen

/-- All connections are sound, and the flag counts those that are open. -/
structure Lent (w : Lending σ) : Prop where
  secure : w.client.secure.isSome
  sound {b : Borrower σ} : some b ∈ w.places → b.Sound
  opened_eq : w.opened = w.client.scratch.held.toNat

theorem lent_start (config : SecureConfig) (memory : Bytes) :
    (start ⟨some config, ⟨memory, false⟩⟩ : Lending σ).Lent :=
  ⟨rfl, (by intro b hb; cases hb), rfl⟩

variable {w : Lending σ} {i : Nat} {b : Borrower σ}

theorem mem_of_borrower? (h : w.borrower? i = some b) : some b ∈ w.places :=
  List.mem_of_getElem? (borrower?_eq_some_iff.mp h)

/-- An open connection has its lease. -/
theorem Lent.held_of_open (h : w.Lent) (hb : w.borrower? i = some b) (hopen : b.closed = false) :
    w.client.scratch.held = true := by
  have hpos : 0 < w.opened := by
    refine List.countP_pos_iff.mpr ⟨some b, mem_of_borrower? hb, ?_⟩
    rw [standsOpen, Option.any_some, hopen]
    rfl
  rw [h.opened_eq] at hpos
  cases hheld : w.client.scratch.held with
  | true => rfl
  | false =>
      rw [hheld] at hpos
      cases hpos

/-- A place changes together with the flag. -/
theorem Lent.settle (h : w.Lent) (hb : w.borrower? i = some b) {l : Link σ}
    {left : Option (Borrower σ)} (hsound : ∀ b', left = some b' → b'.Sound)
    (hheld : (standsOpen left).toNat + w.client.scratch.held.toNat =
      (!b.closed).toNat + l.scratch.held.toNat) : (w.settle i b l left).Lent := by
  have hset := countP_set_add standsOpen (borrower?_eq_some_iff.mp hb) left
  have hcount : w.places.countP standsOpen = w.client.scratch.held.toNat := h.opened_eq
  refine ⟨h.secure, ?_, ?_⟩
  · intro b' hb'
    rcases List.mem_or_eq_of_mem_set hb' with hmem | heq
    · exact h.sound hmem
    · exact hsound b' heq.symm
  · show (w.places.set i left).countP standsOpen = (b.leaves _ l).held.toNat
    rw [(h.sound (mem_of_borrower? hb)).leaves_eq]
    simp only [standsOpen, Option.any_some] at hset hheld hcount
    omega

/-- **A connection that goes** frees the memory exactly if it was not closed before. -/
theorem Lent.destroy (h : w.Lent) (i : Nat) : (w.destroy i).Lent := by
  cases hb : w.borrower? i with
  | none => rwa [destroy_of_none hb]
  | some b =>
      have hsound := h.sound (mem_of_borrower? hb)
      have hheld := Link.held_releaseLease (b.within w.client.scratch).link
      rw [hsound.scratch_within, hsound.connection_within, hsound.holdsLease_eq,
        Bool.not_not] at hheld
      rw [destroy_of_some hb]
      refine h.settle hb (fun b' heq => by cases heq) ?_
      rw [hheld]
      cases hclosed : b.closed with
      | true =>
          rw [Bool.and_true]
          rfl
      | false =>
          rw [h.held_of_open hb hclosed]
          rfl

/-! ### Moves -/

/-- Connections that only change their places leave the lease as it is. -/
theorem Lent.of_places (h : w.Lent) {places : List (Option (Borrower σ))}
    (hmem : ∀ b, some b ∈ places → some b ∈ w.places)
    (hcount : places.countP standsOpen = w.opened) : Lent { w with places } :=
  ⟨h.secure, fun hb => h.sound (hmem _ hb), hcount.trans h.opened_eq⟩

theorem borrower?_of_getElem? {place : Option (Borrower σ)} (h : w.places[i]? = some place) :
    w.borrower? i = place := by
  rw [borrower?, h]
  rfl

theorem borrower?_of_le (h : w.places.length ≤ i) : w.borrower? i = none := by
  rw [borrower?, List.getElem?_eq_none h]
  rfl

/-- Whatever stood at a place that is left empty no longer counts. -/
theorem opened_vacated (w : Lending σ) (i : Nat) :
    (w.places.set i none).countP standsOpen + (standsOpen (w.borrower? i)).toNat = w.opened := by
  by_cases hi : i < w.places.length
  · have hplace := List.getElem?_eq_getElem hi
    rw [borrower?_of_getElem? hplace]
    exact countP_set_add standsOpen hplace none
  · have hi := Nat.not_lt.mp hi
    rw [borrower?_of_le hi, List.set_eq_of_length_le hi]
    rfl

theorem mem_of_mem_vacated (hb : some b ∈ w.places.set i none) : some b ∈ w.places := by
  rcases List.mem_or_eq_of_mem_set hb with hmem | heq
  · exact hmem
  · cases heq

theorem mem_of_mem_moveOut (hb : some b ∈ (w.moveOut i).places) : some b ∈ w.places := by
  rcases List.mem_append.mp hb with hb | hb
  · exact mem_of_mem_vacated hb
  · exact mem_of_borrower? (List.mem_singleton.mp hb).symm

theorem mem_of_mem_carried {j : Nat}
    (hb : some b ∈ (w.places.set i none).set j (w.borrower? i)) : some b ∈ w.places := by
  rcases List.mem_or_eq_of_mem_set hb with hb | heq
  · exact mem_of_mem_vacated hb
  · exact mem_of_borrower? heq.symm

theorem Lent.moveOut (h : w.Lent) (i : Nat) : (w.moveOut i).Lent := by
  refine h.of_places (fun b => mem_of_mem_moveOut) ?_
  rw [List.countP_append, List.countP_singleton, ← w.opened_vacated i]
  cases standsOpen (w.borrower? i) <;> rfl

/-- A connection moves to a place that is empty. -/
theorem Lent.carry (h : w.Lent) {j : Nat} (hne : i ≠ j) (hj : j < w.places.length)
    (hempty : w.borrower? j = none) :
    Lent { w with places := (w.places.set i none).set j (w.borrower? i) } := by
  refine h.of_places (fun b => mem_of_mem_carried) ?_
  have hplace : (w.places.set i none)[j]? = some none := by
    rw [List.getElem?_set_ne hne, List.getElem?_eq_getElem hj,
      ← borrower?_of_getElem? (List.getElem?_eq_getElem hj), hempty]
  have hset := countP_set_add standsOpen hplace (w.borrower? i)
  rw [w.opened_vacated i] at hset
  exact hset

theorem length_destroy (w : Lending σ) (j : Nat) :
    (w.destroy j).places.length = w.places.length := by
  unfold destroy
  split
  · rfl
  · exact List.length_set

/-- A place that was destroyed is empty, and the others are as before. -/
theorem borrower?_destroy_self (w : Lending σ) (j : Nat) : (w.destroy j).borrower? j = none := by
  cases hb : w.borrower? j with
  | none => rwa [destroy_of_none hb]
  | some b =>
      obtain ⟨hj, -⟩ := List.getElem?_eq_some_iff.mp (borrower?_eq_some_iff.mp hb)
      rw [destroy_of_some hb]
      exact borrower?_of_getElem? (List.getElem?_set_self hj)

theorem borrower?_destroy_of_ne (w : Lending σ) {j : Nat} (hne : j ≠ i) :
    (w.destroy j).borrower? i = w.borrower? i := by
  cases hb : w.borrower? j with
  | none => rw [destroy_of_none hb]
  | some b =>
      rw [destroy_of_some hb]
      exact congrArg Option.join (List.getElem?_set_ne hne)

theorem Lent.moveOnto (h : w.Lent) (i j : Nat) : (w.moveOnto i j).Lent := by
  unfold Lending.moveOnto
  split
  · rename_i hmove
    obtain ⟨-, hj, hne⟩ := hmove
    have hcarry := (h.destroy j).carry hne (by rwa [length_destroy]) (w.borrower?_destroy_self j)
    rwa [w.borrower?_destroy_of_ne (Ne.symm hne)] at hcarry
  · exact h

/-! ### Calls and setups -/

variable [SecureTransport σ]

theorem Lent.use (h : w.Lent) (i : Nat) (call : Call) : (w.use i call).Lent := by
  cases hb : w.borrower? i with
  | none => rwa [use_of_none hb]
  | some b =>
      have hsound := h.sound (mem_of_borrower? hb)
      obtain ⟨hafter, hheld⟩ := hsound.step w.client.scratch call
      rw [use_of_some hb]
      refine h.settle hb ?_ ?_
      · rintro b' heq
        cases heq
        exact hafter
      · show (!(b.closed || call.isClose)).toNat + _ = _
        rw [hheld]
        cases hclosed : b.closed with
        | true =>
            rw [Bool.true_or, Bool.true_or, Bool.and_true]
        | false =>
            rw [h.held_of_open hb hclosed]
            cases call.isClose <;> rfl

omit [SecureTransport σ] in
/-- A connection that was just made is open, and it has the lease. -/
theorem sound_make {connection : Connection} {wire : σ} (hkind : connection.kind ≠ .plain)
    (hholds : connection.holdsLease = true) : (Borrower.make connection wire).Sound :=
  ⟨hholds, hkind, hholds⟩

omit [SecureTransport σ] in
theorem Lent.lend (h : w.Lent) (hfree : w.client.scratch.held = false) (client : Client)
    (hsecure : client.secure.isSome) (hheld : client.scratch.held = true)
    (connection : Connection) (wire : σ) (hkind : connection.kind ≠ .plain)
    (hholds : connection.holdsLease = true) :
    Lent { client, places := w.places ++ [some (.make connection wire)] } := by
  refine ⟨hsecure, ?_, ?_⟩
  · intro b hb
    rcases List.mem_append.mp hb with hmem | hnew
    · exact h.sound hmem
    · cases List.mem_singleton.mp hnew
      exact sound_make hkind hholds
  · have hnone := h.opened_eq
    rw [hfree] at hnone
    show (w.places ++ _).countP standsOpen = client.scratch.held.toNat
    rw [List.countP_append, show w.places.countP standsOpen = 0 from hnone, hheld]
    rfl

theorem Lent.reach (h : w.Lent) (text : Bytes) (network : Network σ) :
    (w.reach text network).Lent := by
  have hexits := w.client.exits_reach network text
  have hsame {client : Client} (hsecure : client.secure.isSome)
      (hheld : client.scratch.held = w.client.scratch.held) :
      Lent { client, places := w.places ++ [] } := by
    rw [List.append_nil]
    exact ⟨hsecure, h.sound, hheld ▸ h.opened_eq⟩
  unfold Lending.reach
  generalize w.client.reach network text = r at hexits ⊢
  cases hexits with
  | unparsed fault => exact hsame h.secure rfl
  | refused parsed refusal => exact hsame h.secure rfl
  | unresolved admits lost => exact hsame h.secure rfl
  | unreachable dials => exact hsame h.secure rfl
  | insecure dials secure scheme => exact hsame rfl rfl
  | plain dials bare scheme =>
      have hsome := h.secure
      rw [bare] at hsome
      cases hsome
  | @buffered url address wire config journal dials secure scheme =>
      exact h.lend (dials.held_eq secure) w.client.lend h.secure rfl
        { Connection.buffered config.sendCapacity with holdsLease := true } wire
        Kind.noConfusion rfl
  | @secured url address wire wire' config journal dials secure scheme =>
      exact h.lend (dials.held_eq secure) (Client.lend _) rfl rfl
        { Connection.secured ⟨.empty config.sendCapacity, true⟩ with holdsLease := true } wire'
        Kind.noConfusion rfl

/-- **Every act preserves the lease.** -/
theorem Lent.step (h : w.Lent) (act : Act σ) : (w.step act).Lent := by
  cases act with
  | reach text network => exact h.reach text network
  | use i call => exact h.use i call
  | moveOut i => exact h.moveOut i
  | moveOnto i j => exact h.moveOnto i j
  | destroy i => exact h.destroy i

theorem Lent.run (h : w.Lent) (acts : List (Act σ)) : (w.run acts).Lent := by
  induction acts using List.reverseRecOn with
  | nil => exact h
  | append_singleton acts act ih =>
      rw [run_concat]
      exact ih.step act

/-! ## What the flag says -/

/-- What can be relied on of the lease of a client. -/
structure Exact (w : Lending σ) : Prop where
  held_iff : w.client.scratch.held = true ↔ w.opened = 1
  opened_le : w.opened ≤ 1
  /-- A URL that is served gets as far as its lookup exactly while nothing is lent. -/
  passes_iff {text : Bytes} {url : Url} (network : Network σ) : Url.parse text = .ok url →
    ((w.client.reach network text).2.lookups = [url.host] ↔ w.client.scratch.held = false)
  /-- While the memory is lent it is refused, and nothing is looked up or dialled. -/
  refused {text : Bytes} {url : Url} (network : Network σ) : Url.parse text = .ok url →
    w.client.scratch.held = true → w.client.reach network text =
      (.error .scratchInUse, ⟨.error .scratchInUse, w.client, none, [], [], []⟩)
  /-- Lookups, dials and handshakes that fail leave nothing lent. -/
  failed {text : Bytes} {network : Network σ} {failure : Failure} :
    (w.client.reach network text).1 = .error failure →
    failure.error = .dns ∨ failure.error = .network ∨ failure.error = .tls →
    (w.step (.reach text network)).client.scratch.held = false
  /-- A connection that was closed frees nothing any more. -/
  inert {i : Nat} {b : Borrower σ} : w.borrower? i = some b → b.closed = true →
    (w.step (.use i .close)).client.scratch.held = w.client.scratch.held ∧
    (w.step (.destroy i)).client.scratch.held = w.client.scratch.held ∧
    ∀ source, (w.step (.moveOnto source i)).client.scratch.held = w.client.scratch.held

omit [SecureTransport σ] in
/-- A connection that was closed has nothing to give back. -/
theorem Lent.held_destroy (h : w.Lent) (hb : w.borrower? i = some b) (hclosed : b.closed = true) :
    (w.destroy i).client.scratch.held = w.client.scratch.held := by
  have hsound := h.sound (mem_of_borrower? hb)
  rw [destroy_of_some hb]
  show (b.leaves _ _).held = _
  rw [hsound.leaves_eq, Link.held_releaseLease, hsound.scratch_within, hsound.connection_within,
    hsound.holdsLease_eq, hclosed, Bool.not_true, Bool.not_false, Bool.and_true]

theorem Lent.held_close (h : w.Lent) (hb : w.borrower? i = some b) (hclosed : b.closed = true) :
    (w.use i .close).client.scratch.held = w.client.scratch.held := by
  have hsound := h.sound (mem_of_borrower? hb)
  rw [use_of_some hb]
  show (b.leaves _ _).held = _
  rw [hsound.leaves_eq, (hsound.step w.client.scratch .close).2, hclosed, Bool.true_or,
    Bool.and_true]

omit [SecureTransport σ] in
theorem Lent.refusal?_eq (h : w.Lent) (url : Url) :
    w.client.refusal? url = if w.client.scratch.held then some .scratchInUse else none := by
  obtain ⟨config, hconfig⟩ := Option.isSome_iff_exists.mp h.secure
  exact Client.refusal?_of_secure hconfig url

theorem Lent.exact (h : w.Lent) : w.Exact where
  held_iff := by
    rw [h.opened_eq]
    cases w.client.scratch.held <;> decide
  opened_le := by
    rw [h.opened_eq]
    exact Bool.toNat_le _
  passes_iff {text url} network hparse := by
    have hexits := w.client.exits_reach network text
    have hrefusal := h.refusal?_eq url
    cases hheld : w.client.scratch.held with
    | true =>
        rw [hheld] at hrefusal
        rw [hexits.eq_of_refused hparse hrefusal]
        constructor <;> rintro ⟨⟩
    | false =>
        rw [hheld] at hrefusal
        refine ⟨fun _ => rfl, fun _ => hexits.lookups_eq ⟨hparse, hrefusal⟩⟩
  refused {text url} network hparse hheld := by
    have hrefusal := h.refusal?_eq url
    rw [hheld] at hrefusal
    exact (w.client.exits_reach network text).eq_of_refused hparse hrefusal
  failed {text network failure} houtcome hclass := by
    obtain ⟨config, hconfig⟩ := Option.isSome_iff_exists.mp h.secure
    have hexits := w.client.exits_reach network text
    show (w.client.reach network text).2.client.scratch.held = false
    generalize w.client.reach network text = r at hexits houtcome ⊢
    obtain ⟨outcome, setup⟩ := r
    obtain rfl : outcome = .error failure := houtcome
    obtain ⟨⟨url, hadmits⟩, hscratch⟩ := hexits.admitted hclass
    rw [hscratch]
    exact hadmits.held_eq hconfig
  inert {i b} hb hclosed := by
    refine ⟨h.held_close hb hclosed, h.held_destroy hb hclosed, ?_⟩
    intro source
    show (w.moveOnto source i).client.scratch.held = _
    unfold Lending.moveOnto
    split
    · exact h.held_destroy hb hclosed
    · rfl

/-- **The lease of a client's memory is exact**: from a client with a configuration and nothing
lent, in every state that any acts lead to. -/
theorem lease_exact (config : SecureConfig) (memory : Bytes) (acts : List (Act σ)) :
    ((start ⟨some config, ⟨memory, false⟩⟩).run acts).Exact :=
  ((lent_start config memory).run acts).exact

end Lending

end HttpExchange
