import HttpExchange.Proofs.Setup
import HttpExchange.Proofs.Simulation

/-!
# Clients and the connections they have made

A `Lending` is a client with the connections it has made and that are still there. Each stands
at a place, which is a variable, a handle or a resource: to move one of these is to move the
connection in it, and what handles and resources send goes out on it. An `Act` makes a
connection, makes a call on one, moves it to a new place or onto another, or destroys it.
Connections that were lent the memory of their client work in that memory, all others in one
of their own.

* `Lending.settle`: what any act but a setup comes down to.
* `Lending.secure_run`: over a run of acts only handshakes touch the configuration, and each of
  them moves the seed on by one step.
-/

namespace HttpExchange

/-- A connection that a client has made, with what was obtained from it. -/
structure Borrower (σ : Type) where
  usage : Usage σ
  /-- It works in the memory of its client. -/
  shares : Bool
  /-- Its owner has closed it. -/
  closed : Bool

namespace Borrower

variable {σ : Type}

def make (connection : Connection) (wire : σ) : Borrower σ :=
  ⟨.start ⟨connection, .empty, wire, []⟩, connection.holdsLease, false⟩

/-- The connection over the memory that it works in, if `memory` is that of the client. -/
def within (b : Borrower σ) (memory : Scratch) : Usage σ :=
  if b.shares then { b.usage with link := { b.usage.link with scratch := memory } } else b.usage

/-- The memory of the client after the connection has worked. -/
def leaves (b : Borrower σ) (memory : Scratch) (l : Link σ) : Scratch :=
  if b.shares then l.scratch else memory

def after (b : Borrower σ) (u : Usage σ) (call : Call) : Borrower σ :=
  { b with usage := u, closed := b.closed || call.isClose }

end Borrower

/-- A client and the places of its connections; a place may be empty. -/
structure Lending (σ : Type) where
  client : Client
  places : List (Option (Borrower σ))

/-- What can be done with a client and its connections. -/
inductive Act (σ : Type)
  /-- A connection is asked for, for a request or for a resource. -/
  | reach (text : Bytes) (network : Network σ)
  | use (place : Nat) (call : Call)
  /-- A connection moves to a place that did not exist before. -/
  | moveOut (source : Nat)
  /-- A connection moves to a place where another may be, which is destroyed. -/
  | moveOnto (source target : Nat)
  | destroy (place : Nat)

namespace Lending

variable {σ : Type}

def start (client : Client) : Lending σ := ⟨client, []⟩

def borrower? (w : Lending σ) (i : Nat) : Option (Borrower σ) := (w.places[i]?).join

theorem borrower?_eq_some_iff {w : Lending σ} {i : Nat} {b : Borrower σ} :
    w.borrower? i = some b ↔ w.places[i]? = some (some b) := by
  rw [borrower?, Option.join_eq_some_iff]

/-- What stands at a place changes, after the connection there has worked. -/
def settle (w : Lending σ) (i : Nat) (b : Borrower σ) (l : Link σ) (left : Option (Borrower σ)) :
    Lending σ where
  client := { w.client with scratch := b.leaves w.client.scratch l }
  places := w.places.set i left

/-- A connection that goes gives back the memory, if it was lent to it. -/
def destroy (w : Lending σ) (i : Nat) : Lending σ :=
  match w.borrower? i with
  | none => w
  | some b => w.settle i b (b.within w.client.scratch).link.releaseLease none

def moveOut (w : Lending σ) (i : Nat) : Lending σ :=
  { w with places := w.places.set i none ++ [w.borrower? i] }

/-- Nothing happens to a connection that is moved onto itself. -/
def moveOnto (w : Lending σ) (i j : Nat) : Lending σ :=
  if i < w.places.length ∧ j < w.places.length ∧ i ≠ j then
    let freed := w.destroy j
    { freed with places := (freed.places.set i none).set j (w.borrower? i) }
  else w

variable [SecureTransport σ]

/-- A place is made for a connection if there is one. -/
def reach (w : Lending σ) (text : Bytes) (network : Network σ) : Lending σ :=
  let setup := (w.client.reach network text).2
  { client := setup.client
    places := w.places ++ match setup.connection, setup.wire with
      | .ok connection, some wire => [some (.make connection wire)]
      | _, _ => [] }

def use (w : Lending σ) (i : Nat) (call : Call) : Lending σ :=
  match w.borrower? i with
  | none => w
  | some b =>
    let u := (b.within w.client.scratch).step call
    w.settle i b u.link (some (b.after u call))

def step (w : Lending σ) : Act σ → Lending σ
  | .reach text network => w.reach text network
  | .use place call => w.use place call
  | .moveOut source => w.moveOut source
  | .moveOnto source target => w.moveOnto source target
  | .destroy place => w.destroy place

def run (w : Lending σ) (acts : List (Act σ)) : Lending σ := acts.foldl step w

theorem run_concat (w : Lending σ) (acts : List (Act σ)) (act : Act σ) :
    w.run (acts ++ [act]) = (w.run acts).step act := by
  rw [run, List.foldl_append]
  rfl

section

omit [SecureTransport σ]

variable {w : Lending σ} {i j : Nat} {b : Borrower σ}

theorem destroy_of_some (h : w.borrower? i = some b) :
    w.destroy i = w.settle i b (b.within w.client.scratch).link.releaseLease none := by
  unfold destroy
  rw [h]

theorem destroy_of_none (h : w.borrower? i = none) : w.destroy i = w := by
  unfold destroy
  rw [h]

theorem secure_destroy (w : Lending σ) (i : Nat) :
    (w.destroy i).client.secure = w.client.secure := by
  unfold destroy
  split <;> rfl

theorem secure_moveOnto (w : Lending σ) (i j : Nat) :
    (w.moveOnto i j).client.secure = w.client.secure := by
  unfold moveOnto
  split
  · exact w.secure_destroy j
  · rfl

end

theorem use_of_some {w : Lending σ} {i : Nat} {b : Borrower σ} (h : w.borrower? i = some b)
    (call : Call) : w.use i call = w.settle i b ((b.within w.client.scratch).step call).link
      (some (b.after ((b.within w.client.scratch).step call) call)) := by
  unfold use
  rw [h]

theorem use_of_none {w : Lending σ} {i : Nat} (h : w.borrower? i = none) (call : Call) :
    w.use i call = w := by
  unfold use
  rw [h]

/-! ## The chain of seeds -/

/-- An act that is followed by a handshake. -/
def shakes (w : Lending σ) : Act σ → Bool
  | .reach text network => Client.shook text (w.client.reach network text).2
  | _ => false

/-- How many acts of a run are followed by a handshake. -/
def handshakes (w : Lending σ) : List (Act σ) → Nat
  | [] => 0
  | act :: acts => (if w.shakes act then 1 else 0) + (w.step act).handshakes acts

theorem secure_step (w : Lending σ) (act : Act σ) : (w.step act).client.secure =
    w.client.secure.map SecureConfig.next^[if w.shakes act then 1 else 0] := by
  have hkept {w' : Lending σ} (h : w'.client.secure = w.client.secure) :
      w'.client.secure = w.client.secure.map SecureConfig.next^[if false then 1 else 0] :=
    h.trans Option.map_id'.symm
  cases act with
  | reach text network => exact (w.client.exits_reach network text).secure_eq
  | use i call =>
      refine hkept ?_
      show (w.use i call).client.secure = _
      unfold use
      split <;> rfl
  | moveOut i => exact hkept rfl
  | moveOnto i j => exact hkept (w.secure_moveOnto i j)
  | destroy i => exact hkept (w.secure_destroy i)

/-- **Over a run the seed moves on by one step for each handshake**, and nothing else of the
configuration changes. -/
theorem secure_run (w : Lending σ) (acts : List (Act σ)) : (w.run acts).client.secure =
    w.client.secure.map SecureConfig.next^[w.handshakes acts] := by
  induction acts generalizing w with
  | nil => exact Option.map_id'.symm
  | cons act acts ih =>
      show ((w.step act).run acts).client.secure = _
      rw [ih, secure_step, Option.map_map, handshakes, Nat.add_comm, Function.iterate_add]

/-- **Setups are accounted for over whole runs.** Whatever is done with a client and its
connections, and however networks and peers answer, each setup of the run has looked up,
dialled and changed what the class of its outcome says, and in the end the seed has moved on
by as many steps as there were dials for https that got through. -/
theorem setups_accounted (w : Lending σ) (acts : List (Act σ)) :
    (∀ before text network, before ++ [.reach text network] <+: acts →
      (w.run before).client.Accounted text ((w.run before).client.reach network text)) ∧
    (w.run acts).client.secure = w.client.secure.map fun config => { config with
      seed := (fun seed => (Seed.step seed).next)^[w.handshakes acts] config.seed } := by
  constructor
  · intro before text network _
    exact Client.accounted_reach _ network text
  · rw [secure_run]
    congr 1
    funext config
    exact config.next_iterate _

end Lending

end HttpExchange
