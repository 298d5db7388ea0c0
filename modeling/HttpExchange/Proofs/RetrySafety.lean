import HttpExchange.Client.Handle
import HttpExchange.Client.Resource
import HttpExchange.Proofs.Carrying
import HttpExchange.Proofs.Usage

/-!
# Failures that may be tried again

A failure tells its caller whether the request may be sent again on another connection. A call
that is part of an exchange ends in one of three ways (`Link.Ends`): it is refused with a
failure that is safe to retry, and then it has touched nothing; it fails with one that is not,
and the connection, which was idle, is poisoned; or it succeeds, and the connection, which was
idle, is idle again or waits for a body to be read. So what was sent in part never comes back
as something to be sent again.

* `Link.ends_write`, `Link.ends_readResponse`, `Link.ends_send`: writing a request, reading the
  head of a response, and both.
* `exchanges_classified`: all ways of making an exchange, on any connection, with any body.
-/

namespace HttpExchange

namespace Link

variable {σ : Type}

/-- How a call of an exchange ends that was made on `l`. -/
inductive Ends {α : Type} (l : Link σ) : Except Failure α × Link σ → Prop
  | refused {failure : Failure} (safe : failure.retrySafe = true) : Ends l (.error failure, l)
  | broken {failure : Failure} {l' : Link σ} (idle : l.phase = .idle)
      (lost : failure.retrySafe = false) (poisoned : l'.phase = .poisoned) :
      Ends l (.error failure, l')
  | succeeds {value : α} {l' : Link σ} (idle : l.phase = .idle)
      (stands : l'.phase = .idle ∨ l'.phase = .inBody) : Ends l (.ok value, l')

/-- What a failure that is safe to retry has touched: neither connection nor wire, neither
write memory nor journal. -/
theorem Ends.eq_of_retrySafe {α : Type} {l l' : Link σ} {failure : Failure}
    (h : Ends l ((.error failure, l') : Except Failure α × Link σ))
    (hsafe : failure.retrySafe = true) : l' = l := by
  cases h with
  | refused _ => rfl
  | broken _ lost _ =>
      rw [hsafe] at lost
      cases lost

/-- What a call that has touched anything can fail with. -/
theorem Ends.not_retrySafe {α : Type} {l l' : Link σ} {failure : Failure}
    (h : Ends l ((.error failure, l') : Except Failure α × Link σ)) (htouched : l' ≠ l) :
    failure.retrySafe = false := by
  cases hsafe : failure.retrySafe with
  | true => exact absurd (h.eq_of_retrySafe hsafe) htouched
  | false => rfl

variable [SecureTransport σ]

/-- Writes and flushes do not change the phase. -/
theorem carried_phase : Carried fun l l' : Link σ => l'.phase = l.phase where
  refl _ := rfl
  trans h h' := h'.trans h
  write := phase_write
  flush := phase_flush

/-- A request that was written leaves an idle link idle, so that a response is read on it. -/
theorem idle_of_write {l l' : Link σ} {r : Request} (hidle : l.phase = .idle)
    (h : r.write l = (.ok (), l')) : l'.phase = .idle := by
  obtain ⟨l₁, hphase, ⟨texts, hwrite⟩ | ⟨failure, texts, hwrite⟩⟩ :=
    carried_phase.request hidle r
  · rw [hwrite] at h
    cases h
    exact hphase.trans hidle
  · rw [hwrite] at h
    cases h

theorem ends_write (l : Link σ) (r : Request) : Ends l (r.write l) := by
  by_cases hidle : l.phase = .idle
  · obtain ⟨l₁, hphase, ⟨texts, hwrite⟩ | ⟨failure, texts, hwrite⟩⟩ :=
      carried_phase.request hidle r
    · rw [hwrite]
      exact .succeeds hidle (.inl (hphase.trans hidle))
    · rw [hwrite]
      exact .broken hidle rfl rfl
  · obtain ⟨why, hwrite⟩ := write_of_not_idle hidle r
    rw [hwrite]
    exact .refused rfl

/-- On an idle link a response is not refused: its head comes, or the link is poisoned. -/
theorem readResponse_of_idle {l : Link σ} (hidle : l.phase = .idle) (method : Method)
    (capacity : Nat) :
    match Response.read l method capacity with
    | (.ok _, l') => l'.phase = .idle ∨ l'.phase = .inBody
    | (.error failure, l') => failure.retrySafe = false ∧ l'.phase = .poisoned := by
  unfold Response.read
  rw [Connection.ensureReusable_of_idle hidle]
  dsimp only
  cases hreceive : Head.receive l capacity [] with
  | mk outcome l₁ =>
      cases outcome with
      | error failure =>
          refine ⟨?_, rfl⟩
          rw [Failure.retrySafe, Head.poisons_of_receive hreceive]
          rfl
      | ok head =>
          dsimp only [phase, log, enter, Response.phaseAfter]
          split
          · exact .inl rfl
          · exact .inr rfl

theorem ends_readResponse (l : Link σ) (method : Method) (capacity : Nat) :
    Ends l (Response.read l method capacity) := by
  by_cases hidle : l.phase = .idle
  · have hread := readResponse_of_idle hidle method capacity
    split at hread <;> rename_i heq <;> rw [heq]
    · exact .succeeds hidle hread
    · exact .broken hidle hread.1 hread.2
  · obtain ⟨why, hread⟩ := readResponse_of_not_idle hidle method capacity
    rw [hread]
    exact .refused rfl

theorem ends_send (l : Link σ) (r : Request) (capacity : Nat) : Ends l (l.send r capacity) := by
  have hends := ends_write l r
  unfold send
  cases hwrite : r.write l with
  | mk outcome l₁ =>
      rw [hwrite] at hends
      cases outcome with
      | error failure =>
          cases hends with
          | refused safe => exact .refused safe
          | broken idle lost poisoned => exact .broken idle lost poisoned
      | ok value =>
          cases hends with
          | succeeds idle _ =>
              -- The guard of the response finds the link as idle as that of the request did.
              have hread := readResponse_of_idle (idle_of_write idle hwrite) r.method capacity
              dsimp only
              split at hread <;> rename_i heq <;> rw [heq]
              · exact .succeeds idle hread
              · exact .broken idle hread.1 hread.2

end Link

/-! ## All ways of making an exchange -/

section

variable {σ : Type} [SecureTransport σ]

/-- A handle is refused once it was sent, and else sends its own request. -/
theorem Handle.ends_send (h : Handle) (l : Link σ) (capacity : Nat) :
    Link.Ends l ((h.send l capacity).1, (h.send l capacity).2.2) := by
  unfold Handle.send
  cases h.pending with
  | none => exact .refused rfl
  | some request => exact l.ends_send request capacity

theorem Builder.ends_send (b : Builder) (l : Link σ) (capacity : Nat) :
    Link.Ends l ((b.send l capacity).1, (b.send l capacity).2.2) := by
  unfold Builder.send
  cases b.pending with
  | none => exact .refused rfl
  | some request => exact l.ends_send { request with basePath := some b.basePath } capacity

/-- **The classification of failures is exact.** In whatever form and phase a connection is,
whatever transport it has and whatever a body does, each way of making an exchange or a part
of one ends as `Link.Ends` says. The wire may be of any kind, so also one that counts its
calls: where the link is as before, none was made. -/
theorem exchanges_classified (l : Link σ) (request : Request) (method : Method) (capacity : Nat)
    (handle : Handle) (resource : Resource) (builder : Builder) :
    l.Ends (request.write l) ∧
    l.Ends (Response.read l method capacity) ∧
    l.Ends (l.send request capacity) ∧
    l.Ends ((handle.send l capacity).1, (handle.send l capacity).2.2) ∧
    l.Ends (resource.send l request capacity) ∧
    l.Ends ((builder.send l capacity).1, (builder.send l capacity).2.2) := by
  refine ⟨l.ends_write request, l.ends_readResponse method capacity, l.ends_send request capacity,
    handle.ends_send l capacity, ?_, builder.ends_send l capacity⟩
  exact l.ends_send (resource.place request) capacity

end

end HttpExchange
