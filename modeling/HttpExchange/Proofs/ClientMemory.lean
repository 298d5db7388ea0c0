import HttpExchange.Proofs.SharedMemory

/-!
# What calls do to the memory of a client

Which calls change the memory at all once the lease was given back (`Usage.scratch_step`), and
what a write stores there. Over all acts the memory of a client stays in order
(`Lending.Kept`): what is pending for any of its connections, open or closed, fits in it, and
the sessions of those that were closed are shut.
-/

namespace HttpExchange

/-! ## Write buffers and their memory -/

/-- What is stored in a memory shows in the front of it as far as that goes. -/
theorem Bytes.take_splice {m : Bytes} {p : Nat} (hp : p ≤ m.length) (place : Nat) (data : Bytes) :
    (Bytes.splice m place data).take p =
      (Bytes.splice (m.take p) place data).take (m.take p).length := by
  rw [List.length_take, Nat.min_eq_left hp]
  unfold splice
  ext i : 1
  grind

namespace WriteBuffer.Over

variable {σ : Type} [SecureTransport σ]

theorem scratch_flush (o : Over σ) : o.flush.2.scratch = o.scratch := by
  unfold flush drain drainBy
  cases writeAll Transport.write o.wire (o.buffer.contents o.scratch) with
  | mk outcome wire => cases outcome <;> rfl

theorem write_nil (o : Over σ) : o.write [] = (.ok 0, o) := by
  unfold write
  rw [if_pos rfl]

/-- A text for which there is more than enough room is stored behind what is pending. -/
theorem write_of_room {o : Over σ} {data : Bytes} (hdata : data ≠ [])
    (hroom : o.buffer.pending + data.length < o.buffer.capacity) :
    o.write data = (.ok data.length,
      { o with
        buffer := { o.buffer with pending := o.buffer.pending + data.length }
        scratch := o.scratch.store o.buffer.pending data }) := by
  have hpast : ¬ (o.buffer.pending = 0 ∧ o.buffer.capacity ≤ data.length) := by omega
  have hdrain {o : Over σ} (h : o.buffer.pending < o.buffer.capacity) :
      o.drainFull = (.ok (), o) := by
    unfold drainFull isFull
    rw [if_neg (by simpa using Nat.ne_of_lt h)]
  have hfits : min data.length (o.buffer.capacity - o.buffer.pending) = data.length := by omega
  unfold write
  rw [if_neg hdata, if_neg hpast, hdrain (by omega)]
  dsimp only [fill]
  rw [hfits, List.take_length, hdrain hroom]

end WriteBuffer.Over

/-! ## Sessions that were shut -/

namespace Link

variable {σ : Type} {l : Link σ}

/-- The session of the link was closed, if it has one. -/
def Shut (l : Link σ) : Prop :=
  ∀ session, l.connection.form = .secured session → session.isOpen = false

theorem shut_of_kind (h : l.connection.kind ≠ .secured) : l.Shut := by
  intro session hform
  refine absurd ?_ h
  rw [Connection.kind, hform]
  rfl

variable [SecureTransport σ]

theorem write_of_shut (hkind : l.connection.kind = .secured) (h : l.Shut) (data : Bytes) :
    l.write data = (.error .sessionClosed, l) := by
  obtain ⟨⟨form, phase, holdsLease⟩, scratch, wire, journal⟩ := l
  cases form with
  | plain => cases hkind
  | buffered buffer => cases hkind
  | secured session =>
      unfold write
      dsimp only
      rw [h session rfl]
      rfl

theorem flush_of_shut (hkind : l.connection.kind = .secured) (h : l.Shut) :
    l.flush = (.error .sessionClosed, l) := by
  obtain ⟨⟨form, phase, holdsLease⟩, scratch, wire, journal⟩ := l
  cases form with
  | plain => cases hkind
  | buffered buffer => cases hkind
  | secured session =>
      unfold flush
      dsimp only
      rw [h session rfl]
      rfl

/-- A session is not opened again. -/
theorem invariant_shut : Invariant (Shut (σ := σ)) where
  read {l} h n := by
    rw [read_eq]
    exact h
  enter h _ := h
  log h _ _ := h
  write {l} h data := by
    by_cases hkind : l.connection.kind = .secured
    · rw [write_of_shut hkind h]
      exact h
    · rw [← (l.tied_write data).kind_eq] at hkind
      exact shut_of_kind hkind
  flush {l} h := by
    by_cases hkind : l.connection.kind = .secured
    · rw [flush_of_shut hkind h]
      exact h
    · rw [← l.tied_flush.kind_eq] at hkind
      exact shut_of_kind hkind

theorem shut_close (l : Link σ) : l.close.Shut := by
  have hstream : l.closeStream.Shut := by
    unfold closeStream
    split
    · rename_i hform
      intro session h
      rw [hform] at h
      cases h
    · intro session h
      cases h
    · split
      · intro session h
        cases h
        rfl
      · rename_i session hform hclosed
        intro session' h
        rw [hform] at h
        cases h
        simpa using hclosed
  unfold close releaseLease
  split <;> exact hstream

/-! ## What leaves the memory alone -/

omit [SecureTransport σ] in
theorem scratch_releaseLease (h : l.connection.holdsLease = false) :
    l.releaseLease.scratch = l.scratch := by
  unfold releaseLease
  rw [h]
  rfl

omit [SecureTransport σ] in
theorem bytes_releaseLease (l : Link σ) : l.releaseLease.scratch.bytes = l.scratch.bytes := by
  unfold releaseLease
  split <;> rfl

omit [SecureTransport σ] in
theorem fits_releaseLease (h : l.Fits) : l.releaseLease.Fits := by
  unfold releaseLease
  split
  · have hover : Fits { l with scratch := { l.scratch with held := false } } :=
      h.over (Nat.le_refl _)
    exact fits_of_eq rfl rfl hover
  · exact h

theorem scratch_close (h : l.connection.holdsLease = false) : l.close.scratch = l.scratch := by
  have hstream : l.closeStream.scratch = l.scratch := by
    unfold closeStream
    split
    · rfl
    · rfl
    · split <;> rfl
  have hholds : (l.closeStream.enter .closed).connection.holdsLease = false := by
    show l.closeStream.connection.holdsLease = false
    rw [l.tied_closeStream.holdsLease_eq]
    exact h
  unfold close
  rw [scratch_releaseLease hholds]
  exact hstream

/-- Closing leaves the memory as large as it was, and what is pending fits. -/
theorem fits_close (h : l.Fits) :
    l.close.Fits ∧ l.scratch.bytes.length ≤ l.close.scratch.bytes.length := by
  have htied := l.tied_closeStream
  have hclosed : (l.closeStream.enter .closed).Fits := fits_of_eq rfl rfl (htied.fits h)
  unfold close
  constructor
  · exact fits_releaseLease hclosed
  · rw [bytes_releaseLease]
    exact htied.length_le

/-- Reads do not touch the memory. -/
theorem heard_scratch (m : Scratch) : Heard fun l : Link σ => l.scratch = m where
  read {l} h n := by
    rw [read_eq]
    exact h
  enter h _ := h
  log h _ _ := h

theorem scratch_flush_of_buffered (h : l.connection.kind = .buffered) :
    l.flush.2.scratch = l.scratch := by
  obtain ⟨⟨form, phase, holdsLease⟩, scratch, wire, journal⟩ := l
  cases form with
  | plain => cases h
  | secured session => cases h
  | buffered buffer =>
      exact WriteBuffer.Over.scratch_flush _

/-- Nothing can be done on a session that was shut. -/
theorem invariant_idle (m : Scratch) :
    Invariant fun l : Link σ => l.connection.kind = .secured ∧ l.Shut ∧ l.scratch = m where
  read {l} h n := by
    rw [read_eq]
    exact h
  enter h _ := h
  log h _ _ := h
  write {l} h data := by
    rw [write_of_shut h.1 h.2.1]
    exact h
  flush {l} h := by
    rw [flush_of_shut h.1 h.2.1]
    exact h

/-! ## What stores into the memory -/

theorem scratch_write_nil (h : l.connection.kind = .buffered) :
    (l.write []).2.scratch = l.scratch := by
  obtain ⟨⟨form, phase, holdsLease⟩, scratch, wire, journal⟩ := l
  cases form with
  | plain => cases h
  | secured session => cases h
  | buffered buffer =>
      unfold write
      dsimp only
      rw [WriteBuffer.Over.write_nil]
      rfl

theorem write_of_room {buffer : WriteBuffer} {data : Bytes}
    (hform : l.connection.form = .buffered buffer) (hdata : data ≠ [])
    (hroom : buffer.pending + data.length < buffer.capacity) :
    (l.write data).1 = .ok data.length ∧
      (l.write data).2.scratch = l.scratch.store buffer.pending data := by
  have hwrite := WriteBuffer.Over.write_of_room (o := l.buffering buffer) hdata hroom
  unfold write
  rw [hform]
  dsimp only
  rw [hwrite]
  exact ⟨rfl, rfl⟩

omit [SecureTransport σ] in
/-- What is pending shows what was stored as far as that is before its end. -/
theorem pending_store (h : l.Fits) (place : Nat) (data : Bytes) :
    pending { l with scratch := l.scratch.store place data } =
      (Bytes.splice l.pending place data).take l.pending.length := by
  obtain ⟨⟨form, phase, holdsLease⟩, scratch, wire, journal⟩ := l
  cases form with
  | plain => rfl
  | buffered buffer => exact Bytes.take_splice h.stored place data
  | secured session => exact Bytes.take_splice h.stored place data

end Link

/-! ## Calls -/

namespace Usage

variable {σ : Type} {u : Usage σ}

/-- A call that may store something into the memory, also on a connection that was closed. -/
def Stores (u : Usage σ) : Call → Prop
  | .write data => u.link.connection.kind = .buffered ∧ data ≠ []
  | .writeRequest _ | .send _ _ => u.link.connection.kind = .buffered ∧ u.link.phase = .idle
  | _ => False

variable [SecureTransport σ]

/-- **What stores nothing leaves the memory alone**, once the lease was given back and the
session, if there is one, was shut. -/
theorem scratch_step (hkind : u.link.connection.kind ≠ .plain)
    (hholds : u.link.connection.holdsLease = false) (hshut : u.link.Shut) {call : Call}
    (hcall : ¬ u.Stores call) : (u.step call).link.scratch = u.link.scratch := by
  cases hform : u.link.connection.kind with
  | plain => exact absurd hform hkind
  | secured =>
      refine (invariant_step (Link.invariant_idle u.link.scratch) ⟨hform, hshut, rfl⟩ call
        ?_ ?_).2.2
      · intro _
        exact ⟨u.link.kind_close.trans hform, u.link.shut_close, Link.scratch_close hholds⟩
      · intro capacity _
        rw [Link.intoBuffered_of_kind hkind]
        exact ⟨hform, hshut, rfl⟩
  | buffered =>
      cases call with
      | writeRequest request =>
          have hphase : u.link.phase ≠ .idle := fun hidle => hcall ⟨hform, hidle⟩
          obtain ⟨why, hwrite⟩ := Link.write_of_not_idle hphase request
          show (request.write u.link).2.scratch = _
          rw [hwrite]
      | send request capacity =>
          have hphase : u.link.phase ≠ .idle := fun hidle => hcall ⟨hform, hidle⟩
          obtain ⟨why, hsend⟩ := Link.send_of_not_idle hphase request capacity
          show (u.link.send request capacity).2.scratch = _
          rw [hsend]
      | write data =>
          obtain rfl : data = [] := by
            by_contra hdata
            exact hcall ⟨hform, hdata⟩
          exact Link.scratch_write_nil hform
      | flush => exact Link.scratch_flush_of_buffered hform
      | close => exact Link.scratch_close hholds
      | intoBuffered capacity =>
          show (u.link.intoBuffered capacity).scratch = _
          rw [Link.intoBuffered_of_kind hkind]
      | _ => exact heard_step (Link.heard_scratch u.link.scratch) rfl rfl

/-- What is pending stays in the memory. -/
theorem fits_step (h : u.link.Fits) (hkind : u.link.connection.kind ≠ .plain) (call : Call) :
    (u.step call).link.Fits ∧
      u.link.scratch.bytes.length ≤ (u.step call).link.scratch.bytes.length := by
  cases hcall : call.isClose with
  | false =>
      have htied := u.tied_step hcall hkind
      exact ⟨htied.fits h, htied.length_le⟩
  | true =>
      obtain rfl := Call.eq_close hcall
      exact Link.fits_close h

/-- A session stays shut, and closing shuts it. -/
theorem shut_step (hkind : u.link.connection.kind ≠ .plain) {call : Call}
    (h : u.link.Shut ∨ call.isClose = true) : (u.step call).link.Shut := by
  cases hcall : call.isClose with
  | true =>
      obtain rfl := Call.eq_close hcall
      exact u.link.shut_close
  | false =>
      have hshut : u.link.Shut := by
        rcases h with hshut | hclose
        · exact hshut
        · rw [hcall] at hclose
          cases hclose
      refine invariant_step Link.invariant_shut hshut call ?_ ?_
      · intro _
        exact u.link.shut_close
      · intro capacity _
        rw [Link.intoBuffered_of_kind hkind]
        exact hshut

end Usage

/-! ## Clients whose memory is in order -/

namespace Borrower

variable {σ : Type} {b : Borrower σ}

/-- The view of a connection that has worked is what it has led to. -/
theorem Sound.within_after (h : b.Sound) (u : Usage σ) (call : Call) :
    (b.after u call).within u.link.scratch = u := by
  unfold within after
  rw [h.shares]
  rfl

/-- A connection over another memory. -/
theorem Sound.link_within (h : b.Sound) (m m' : Scratch) :
    (b.within m').link = { (b.within m).link with scratch := m' } := by
  rw [h.within_eq, h.within_eq]

end Borrower

namespace Lending

variable {σ : Type} {w : Lending σ} {i j : Nat} {b : Borrower σ} {u v : Usage σ}

/-- What stands at a place, over the memory of the client. -/
def usage? (w : Lending σ) (i : Nat) : Option (Usage σ) :=
  (w.borrower? i).map fun b => b.within w.client.scratch

/-- The memory is lent, and in it all is there that is pending for one of the connections. The
sessions of those which were closed are shut. -/
structure Kept (w : Lending σ) : Prop extends Lent w where
  fits {b : Borrower σ} : some b ∈ w.places → (b.within w.client.scratch).link.Fits
  shut {b : Borrower σ} : some b ∈ w.places → b.closed = true → b.usage.link.Shut

theorem kept_start (config : SecureConfig) (memory : Bytes) :
    (start ⟨some config, ⟨memory, false⟩⟩ : Lending σ).Kept where
  toLent := lent_start config memory
  fits h := by cases h
  shut h := by cases h

/-- The memory does not get smaller, and connections are as before or in order. -/
theorem Kept.of_mem {w' : Lending σ} (h : w.Kept) (hlent : w'.Lent)
    (hle : w.client.scratch.bytes.length ≤ w'.client.scratch.bytes.length)
    (hmem : ∀ b, some b ∈ w'.places → some b ∈ w.places ∨
      (b.within w'.client.scratch).link.Fits ∧ (b.closed = true → b.usage.link.Shut)) :
    w'.Kept where
  toLent := hlent
  fits {b} hb := by
    rcases hmem b hb with hold | ⟨hfits, -⟩
    · have hsound := h.sound hold
      rw [hsound.link_within w.client.scratch]
      refine (h.fits hold).over ?_
      rw [hsound.scratch_within]
      exact hle
    · exact hfits
  shut {b} hb := by
    rcases hmem b hb with hold | ⟨-, hshut⟩
    · exact h.shut hold
    · exact hshut

theorem Kept.destroy (h : w.Kept) (i : Nat) : (w.destroy i).Kept := by
  have hlent := h.toLent.destroy i
  cases hb : w.borrower? i with
  | none => rwa [destroy_of_none hb]
  | some b =>
      have hsound := h.sound (mem_of_borrower? hb)
      rw [destroy_of_some hb] at hlent ⊢
      refine h.of_mem hlent ?_ (fun b' hb' => .inl (mem_of_mem_vacated hb'))
      show _ ≤ (b.leaves _ _).bytes.length
      rw [hsound.leaves_eq, Link.bytes_releaseLease, hsound.scratch_within]

theorem Kept.moveOut (h : w.Kept) (i : Nat) : (w.moveOut i).Kept := by
  refine h.of_mem (h.toLent.moveOut i) (Nat.le_refl _) ?_
  intro b hb
  exact .inl (mem_of_mem_moveOut hb)

theorem Kept.moveOnto (h : w.Kept) (i j : Nat) : (w.moveOnto i j).Kept := by
  have hlent := h.toLent.moveOnto i j
  unfold Lending.moveOnto at hlent ⊢
  split at hlent
  · rename_i hmove
    rw [if_pos hmove]
    refine (h.destroy j).of_mem hlent (Nat.le_refl _) ?_
    intro b hb
    rw [← w.borrower?_destroy_of_ne (Ne.symm hmove.2.2)] at hb
    exact .inl (mem_of_mem_carried hb)
  · rename_i hstay
    rwa [if_neg hstay]

variable [SecureTransport σ]

theorem Kept.use (h : w.Kept) (i : Nat) (call : Call) : (w.use i call).Kept := by
  have hlent := h.toLent.use i call
  cases hb : w.borrower? i with
  | none => rwa [use_of_none hb]
  | some b =>
      have hmem := mem_of_borrower? hb
      have hsound := h.sound hmem
      have hkind : (b.within w.client.scratch).link.connection.kind ≠ .plain := by
        rw [hsound.connection_within]
        exact hsound.coalesces
      obtain ⟨hfits, hle⟩ := Usage.fits_step (h.fits hmem) hkind call
      rw [hsound.scratch_within] at hle
      rw [use_of_some hb] at hlent ⊢
      have hleaves := hsound.leaves_eq w.client.scratch
        ((b.within w.client.scratch).step call).link
      refine h.of_mem hlent ?_ ?_
      · show _ ≤ (b.leaves _ _).bytes.length
        rw [hleaves]
        exact hle
      · intro b' hb'
        rcases List.mem_or_eq_of_mem_set hb' with hmem | heq
        · exact .inl hmem
        · right
          cases heq
          constructor
          · show ((b.after _ _).within (b.leaves _ _)).link.Fits
            rw [hleaves, hsound.within_after]
            exact hfits
          · intro hclosed
            refine Usage.shut_step hkind ?_
            rcases Bool.or_eq_true_iff.mp hclosed with hclosed | hclose
            · left
              intro session hform
              rw [hsound.connection_within] at hform
              exact h.shut hmem hclosed session hform
            · exact .inr hclose

omit [SecureTransport σ] in
/-- A connection that was just made has nothing pending, and it is open. -/
theorem Kept.lend (h : w.Kept) {client : Client} {connection : Connection} {wire : σ}
    (hlent : Lent { client, places := w.places ++ [some (.make connection wire)] })
    (hbytes : client.scratch.bytes = w.client.scratch.bytes)
    (hfits : ∀ link : Link σ, link.connection = connection → link.Fits) :
    Kept { client, places := w.places ++ [some (.make connection wire)] } := by
  refine h.of_mem hlent (Nat.le_of_eq (congrArg List.length hbytes.symm)) ?_
  intro b hb
  rcases List.mem_append.mp hb with hmem | hnew
  · exact .inl hmem
  · right
    cases List.mem_singleton.mp hnew
    constructor
    · refine hfits _ ?_
      unfold Borrower.within
      split <;> rfl
    · intro hclosed
      cases hclosed

theorem Kept.reach (h : w.Kept) (text : Bytes) (network : Network σ) :
    (w.reach text network).Kept := by
  have hlent := h.toLent.reach text network
  have hexits := w.client.exits_reach network text
  have hsame {client : Client} (hlent : Lent { client, places := w.places ++ [] })
      (hscratch : client.scratch = w.client.scratch) :
      Kept { client, places := w.places ++ [] } := by
    refine h.of_mem hlent (Nat.le_of_eq (congrArg (fun m => m.bytes.length) hscratch.symm)) ?_
    intro b hb
    rw [List.append_nil] at hb
    exact .inl hb
  have hempty {l : Link σ} {buffer : WriteBuffer} (hp : buffer.pending = 0) :
      (l.buffering buffer).Proper := ⟨hp ▸ Nat.zero_le _, hp ▸ Nat.zero_le _⟩
  unfold Lending.reach at hlent ⊢
  generalize w.client.reach network text = r at hexits hlent ⊢
  cases hexits with
  | unparsed fault => exact hsame hlent rfl
  | refused parsed refusal => exact hsame hlent rfl
  | unresolved admits lost => exact hsame hlent rfl
  | unreachable dials => exact hsame hlent rfl
  | insecure dials secure scheme => exact hsame hlent rfl
  | plain dials bare scheme =>
      refine h.lend hlent rfl ?_
      intro link hconnection
      unfold Link.Fits
      rw [hconnection]
      trivial
  | buffered dials secure scheme =>
      refine h.lend hlent rfl ?_
      intro link hconnection
      unfold Link.Fits
      rw [hconnection]
      exact hempty rfl
  | secured dials secure scheme =>
      refine h.lend hlent rfl ?_
      intro link hconnection
      unfold Link.Fits
      rw [hconnection]
      exact hempty rfl

/-- **Every act keeps the memory in order.** -/
theorem Kept.step (h : w.Kept) (act : Act σ) : (w.step act).Kept := by
  cases act with
  | reach text network => exact h.reach text network
  | use i call => exact h.use i call
  | moveOut i => exact h.moveOut i
  | moveOnto i j => exact h.moveOnto i j
  | destroy i => exact h.destroy i

theorem Kept.run (h : w.Kept) (acts : List (Act σ)) : (w.run acts).Kept := by
  induction acts using List.reverseRecOn with
  | nil => exact h
  | append_singleton acts act ih =>
      rw [run_concat]
      exact ih.step act

end Lending

end HttpExchange
