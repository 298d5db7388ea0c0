import HttpExchange.Link

/-!
# The bytes behind a head

A source serves the bytes that came with the head from the receive buffer, and once they
are gone it reads from the link: larger reads straight into the caller's memory, single
bytes by way of the receive buffer, whose part at and behind `floor` is free for them.

`budget` bounds what a source can still serve; every byte that is served lowers it.
-/

namespace HttpExchange

structure Source where
  /-- The receive buffer behind the head: its size, and what was stored in it. -/
  capacity : Nat
  memory : Bytes
  floor : Nat
  /-- The bytes from `position` up to `limit` have not been served yet. -/
  position : Nat
  limit : Nat
deriving DecidableEq, Repr

namespace Source

def ofStaged (capacity : Nat) (staged : Bytes) : Source := ⟨capacity, staged, 0, 0, staged.length⟩

/-- At most `n` of the bytes that were not served yet. -/
def peek (s : Source) (n : Nat) : Bytes :=
  (s.memory.drop s.position).take (min n (s.limit - s.position))

/-- All the bytes in the buffer that were not served yet. -/
def staged (s : Source) : Bytes := s.peek (s.limit - s.position)

def advance (s : Source) (n : Nat) : Source := { s with position := s.position + n }

/-- Puts bytes into the buffer at a place. -/
def store (s : Source) (place : Nat) (data : Bytes) : Source :=
  { s with memory := Bytes.splice s.memory place data }

/-- What is not served yet moves to the front of the buffer. -/
def compact (s : Source) : Source :=
  { s.store 0 s.staged with position := 0, limit := s.limit - s.position, floor := 0 }

/-- Fills the free part of the buffer; what is stored there is served next. -/
def refill (s : Source) (data : Bytes) : Source :=
  { s.store s.floor data with position := s.floor, limit := s.floor + data.length }

/-- The size of the free part of the buffer. -/
def room (s : Source) : Nat := s.capacity - s.floor

variable {σ : Type} [SecureTransport σ]

/-- What a source can still serve at most. -/
def budget (s : Source) (l : Link σ) : Nat := (s.limit - s.position) + l.unread

def read (s : Source) (l : Link σ) (n : Nat) : Except TransportFailure Bytes × Source × Link σ :=
  match s.peek n with
  | [] =>
    let (received, l) := l.read n
    (received, s, l)
  | data => (.ok data, s.advance data.length, l)

/-- The next byte, or none at the end of the stream. With no free part in the buffer the
byte comes straight from the link. -/
def readByte (s : Source) (l : Link σ) :
    Except TransportFailure (Option UInt8) × Source × Link σ :=
  match s.peek 1 with
  | b :: _ => (.ok (some b), s.advance 1, l)
  | [] =>
    if s.room = 0 then
      match l.read 1 with
      | (.error failure, l) => (.error failure, s, l)
      | (.ok [], l) => (.ok none, s, l)
      | (.ok (b :: _), l) => (.ok (some b), s, l)
    else
      match l.read s.room with
      | (.error failure, l) => (.error failure, s, l)
      | (.ok [], l) => (.ok none, s, l)
      | (.ok (b :: rest), l) => (.ok (some b), (s.refill (b :: rest)).advance 1, l)

/-! ## The budget -/

theorem budget_of_read {s s' : Source} {l l' : Link σ} {n : Nat} {data : Bytes}
    (h : s.read l n = (.ok data, s', l')) : s'.budget l' + data.length ≤ s.budget l := by
  unfold read at h
  split at h
  · rcases hr : l.read n with ⟨received, l₁⟩
    simp only [hr, Prod.mk.injEq] at h
    obtain ⟨rfl, rfl, rfl⟩ := h
    have := Link.unread_of_read hr
    simp only [budget]
    omega
  · simp only [Prod.mk.injEq, Except.ok.injEq] at h
    obtain ⟨h₁, rfl, rfl⟩ := h
    have hlen : data.length ≤ s.limit - s.position := by
      rw [← h₁]
      simp only [peek, List.length_take, List.length_drop]
      omega
    simp only [budget, advance, h₁]
    omega

theorem budget_of_readByte {s s' : Source} {l l' : Link σ} {b : UInt8}
    (h : s.readByte l = (.ok (some b), s', l')) : s'.budget l' < s.budget l := by
  unfold readByte at h
  split at h
  · rename_i c more hp
    simp only [Prod.mk.injEq] at h
    obtain ⟨-, rfl, rfl⟩ := h
    have hlen : 1 ≤ s.limit - s.position := by
      have := congrArg List.length hp
      simp only [peek, List.length_take, List.length_drop, List.length_cons] at this
      omega
    simp only [budget, advance]
    omega
  · split at h
    · rcases hr : l.read 1 with ⟨received, l₁⟩
      rw [hr] at h
      split at h <;> simp only [Prod.mk.injEq, Except.ok.injEq, reduceCtorEq, false_and] at h
      rename_i heq
      simp only [Prod.mk.injEq] at heq
      obtain ⟨rfl, rfl⟩ := heq
      obtain ⟨-, rfl, rfl⟩ := h
      have := Link.unread_of_read hr
      simp only [List.length_cons] at this
      simp only [budget]
      omega
    · rcases hr : l.read s.room with ⟨received, l₁⟩
      rw [hr] at h
      split at h <;> simp only [Prod.mk.injEq, Except.ok.injEq, reduceCtorEq, false_and] at h
      rename_i heq
      simp only [Prod.mk.injEq] at heq
      obtain ⟨rfl, rfl⟩ := heq
      obtain ⟨-, rfl, rfl⟩ := h
      have := Link.unread_of_read hr
      simp only [List.length_cons] at this
      simp only [budget, advance, refill, List.length_cons]
      omega

end Source

end HttpExchange
