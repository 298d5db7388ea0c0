import HttpExchange.Proofs.HeadOutcome
import HttpExchange.Proofs.ReaderCalls
import HttpExchange.Proofs.RequestWriting

/-!
# What exchanges leave alone

Whatever the transport does, a request reaches its link by writes and one flush only, and the
head of a response by reads. So a relation between links that every write carries on
(`Link.Written`) is carried on up to the flush, whatever the body does, and one that every flush
carries on as well (`Link.Carried`) by a whole request, up to the moment at which the link is
poisoned (`Link.Carried.request`); and the head of a response leaves connection and write memory
as they were (`Head.holds_receive`).
-/

namespace HttpExchange

/-- What every write carries on is carried on by writing all of a text. -/
theorem writeAll_carries {s : Type} {write : s → Bytes → Except TransportFailure Nat × s}
    {R : s → s → Prop} (refl : ∀ x, R x x) (trans : ∀ {x y z}, R x y → R y z → R x z)
    (hwrite : ∀ x data, R x (write x data).2) (x : s) (data : Bytes) :
    R x (writeAll write x data).2 := by
  by_cases hdata : data = []
  · rw [writeAll, if_pos hdata]
    exact refl x
  · have hfirst := hwrite x data
    rw [writeAll, if_neg hdata]
    rcases hcall : write x data with ⟨failure | _ | n, y⟩
    · rw [hcall] at hfirst
      exact hfirst
    · rw [hcall] at hfirst
      exact hfirst
    · rw [hcall] at hfirst
      have hshorter : (data.drop (n + 1)).length < data.length := by
        have := List.length_pos_iff.mpr hdata
        rw [List.length_drop]
        omega
      exact trans hfirst (writeAll_carries refl trans hwrite y (data.drop (n + 1)))
termination_by data.length

/-! ## Requests -/

namespace Link

variable {σ : Type} [SecureTransport σ]

/-- A relation between links that every write carries on. -/
structure Written (R : Link σ → Link σ → Prop) : Prop where
  refl (l : Link σ) : R l l
  trans {l₁ l₂ l₃ : Link σ} : R l₁ l₂ → R l₂ l₃ → R l₁ l₃
  write (l : Link σ) (data : Bytes) : R l (l.write data).2

/-- A relation between links that every write and every flush carries on. -/
structure Carried (R : Link σ → Link σ → Prop) : Prop extends Written R where
  flush (l : Link σ) : R l l.flush.2

namespace Written

variable {R : Link σ → Link σ → Prop} (h : Written R)
include h

theorem writeAll (l : Link σ) (data : Bytes) : R l (l.writeAll data).2 :=
  writeAll_carries h.refl h.trans h.write l data

theorem put (pen : Pen σ) (piece : Bytes) : R pen.link (pen.put piece).link := by
  unfold Pen.put
  split
  · exact h.refl pen.link
  · have hall := h.writeAll pen.link piece
    split <;> rename_i heq <;> rw [heq] at hall <;> exact hall

theorem putAll (pen : Pen σ) (pieces : List Bytes) : R pen.link (pen.putAll pieces).link := by
  induction pieces generalizing pen with
  | nil => exact h.refl pen.link
  | cons piece more ih => exact h.trans (h.put pen piece) (ih (pen.put piece))

/-- Whatever a body makes of the answers to its writes. -/
theorem stream {emit : Pen σ → Bytes → Pen σ}
    (hemit : ∀ pen data, R pen.link (emit pen data).link) (emission : Emission) (pen : Pen σ) :
    R pen.link (Pen.stream emit emission pen).2.link := by
  induction emission generalizing pen with
  | done => exact h.refl pen.link
  | failed failure => exact h.refl pen.link
  | write data next ih =>
      exact h.trans (hemit pen data) (ih (emit pen data).status (emit pen data))

theorem putBody (pen : Pen σ) (body : Body) : R pen.link (pen.putBody body).link := by
  unfold Pen.putBody
  split
  · exact h.refl pen.link
  · split
    · have hemit (pen : Pen σ) (data : Bytes) : R pen.link (pen.putFragment data).link :=
        h.put pen data
      have hstream := h.stream hemit body.emission pen
      split <;> rename_i heq <;> rw [heq] at hstream
      · exact hstream
      · split
        · exact hstream
        · exact hstream
    · have hemit (pen : Pen σ) (data : Bytes) : R pen.link (pen.putChunk data).link :=
        h.putAll pen (Pen.chunkPieces data)
      have hstream := h.stream hemit body.emission pen
      split <;> rename_i heq <;> rw [heq] at hstream
      · exact hstream
      · exact h.trans hstream (h.put _ _)

theorem streamed (r : Request) (l : Link σ) : R l (r.streamed l).link := by
  have hhead := h.putAll (Pen.on l) r.headPieces
  unfold Request.streamed
  cases r.body with
  | none => exact hhead
  | some body => exact h.trans hhead (h.putBody _ body)

end Written

namespace Carried

variable {R : Link σ → Link σ → Prop} (h : Carried R)
include h

theorem flushPen (pen : Pen σ) : R pen.link pen.flush.link := by
  unfold Pen.flush
  split
  · exact h.refl pen.link
  · have hflush := h.flush pen.link
    split <;> rename_i heq <;> rw [heq] at hflush <;> exact hflush

/-- **A request on an idle link** goes on from a link to which the relation was carried on: it
was written and stays there, or it has failed and poisons. -/
theorem request {l : Link σ} (hidle : l.phase = .idle) (r : Request) : ∃ l₁, R l l₁ ∧
    ((∃ texts, r.write l = (.ok (), l₁.log .trace texts)) ∨
      ∃ failure texts,
        r.write l = (.error (.network failure), (l₁.enter .poisoned).log .debug texts)) := by
  refine ⟨_, h.trans (h.streamed r l) (h.flushPen (r.streamed l)), ?_⟩
  rw [r.write_of_idle hidle]
  cases (r.streamed l).flush.failure with
  | none => exact .inl ⟨_, rfl⟩
  | some failure => exact .inr ⟨failure, _, rfl⟩

end Carried

end Link

/-! ## Heads of responses -/

namespace Head

variable {σ : Type} [SecureTransport σ] {capacity : Nat} {received received' : Bytes}
  {l l' : Link σ}

theorem Polls.holds (h : Polls capacity received l received' l') : Link.Holds l l' := by
  induction h with
  | done received l => exact .refl l
  | @read received received' _ l _ _ _ _ _ hread _ _ ih =>
      have hfirst := Link.holds_read l (capacity - received.length)
      rw [hread] at hfirst
      exact hfirst.trans ih

theorem Settles.holds {r : Except Failure Head × Link σ} (h : Settles capacity received l r) :
    Link.Holds l r.2 := by
  cases h with
  | malformed _ => exact .refl l
  | faulty _ _ => exact .refl l
  | whole _ _ => exact .refl l
  | full _ _ => exact .refl l
  | ended _ _ hread =>
      have hlast := Link.holds_read l (capacity - received.length)
      rwa [hread] at hlast
  | failed _ _ hread =>
      have hlast := Link.holds_read l (capacity - received.length)
      rwa [hread] at hlast

/-- A head that does not come loses the place in the stream. -/
theorem Settles.poisons {failure : Failure}
    (h : Settles capacity received l (.error failure, l')) : failure.poisons = true := by
  cases h <;> rfl

theorem holds_receive (l : Link σ) (capacity : Nat) (received : Bytes) :
    Link.Holds l (receive l capacity received).2 := by
  obtain ⟨received', l₁, hpolls, hsettles⟩ := receive_polls l capacity received
  exact hpolls.holds.trans hsettles.holds

/-- What reads keep of a wire is kept when a head is read. -/
theorem Polls.keeps {get : σ → Nat → Except TransportFailure Bytes × σ} {P : σ → Prop}
    (hkeeps : ∀ {w} n, P w → P (get w n).2) (h : Polls capacity received l received' l')
    (hreceive : l.connection.form.receive = get) (hP : P l.wire) : P l'.wire := by
  induction h with
  | done received l => exact hP
  | @read _ _ _ l _ _ _ _ _ hread _ _ ih =>
      rw [Link.read_eq, Prod.mk.injEq] at hread
      obtain ⟨-, rfl⟩ := hread
      refine ih hreceive ?_
      rw [hreceive]
      exact hkeeps _ hP

theorem Settles.keeps {get : σ → Nat → Except TransportFailure Bytes × σ} {P : σ → Prop}
    (hkeeps : ∀ {w} n, P w → P (get w n).2) {r : Except Failure Head × Link σ}
    (h : Settles capacity received l r) (hreceive : l.connection.form.receive = get)
    (hP : P l.wire) : P r.2.wire := by
  have hlast {outcome : Except TransportFailure Bytes} {l' : Link σ}
      (hread : l.read (capacity - received.length) = (outcome, l')) : P l'.wire := by
    rw [Link.read_eq, hreceive] at hread
    cases hread
    exact hkeeps _ hP
  cases h with
  | malformed _ => exact hP
  | faulty _ _ => exact hP
  | whole _ _ => exact hP
  | full _ _ => exact hP
  | ended _ _ hread => exact hlast hread
  | failed _ _ hread => exact hlast hread

theorem keeps_receive {get : σ → Nat → Except TransportFailure Bytes × σ} {P : σ → Prop}
    (hkeeps : ∀ {w} n, P w → P (get w n).2) (hreceive : l.connection.form.receive = get)
    (hP : P l.wire) (capacity : Nat) (received : Bytes) :
    P (receive l capacity received).2.wire := by
  obtain ⟨received', l₁, hpolls, hsettles⟩ := receive_polls l capacity received
  refine hsettles.keeps hkeeps ?_ (hpolls.keeps hkeeps hreceive hP)
  rw [hpolls.holds.connection_eq]
  exact hreceive

theorem poisons_of_receive {failure : Failure}
    (h : receive l capacity received = (.error failure, l')) : failure.poisons = true := by
  obtain ⟨received', l₁, -, hsettles⟩ := receive_polls l capacity received
  rw [h] at hsettles
  exact hsettles.poisons

end Head

/-- A response is read by reads alone. -/
theorem Response.keeps_read {σ : Type} [SecureTransport σ] {l : Link σ}
    {get : σ → Nat → Except TransportFailure Bytes × σ} {P : σ → Prop}
    (hkeeps : ∀ {w} n, P w → P (get w n).2) (hreceive : l.connection.form.receive = get)
    (hP : P l.wire) (method : Method) (capacity : Nat) :
    P (Response.read l method capacity).2.wire := by
  have hhead := Head.keeps_receive hkeeps hreceive hP capacity []
  unfold Response.read
  split
  · exact hP
  · split <;> rename_i heq <;> rw [heq] at hhead <;> exact hhead

end HttpExchange
