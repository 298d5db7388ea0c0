import HttpExchange.Failure
import HttpExchange.Secure

/-!
# Connections

A connection owns one transport in one of three forms, bare, coalescing or secure, and
knows where it stands between exchanges. It is the state that decides whether another
request may be sent: only an idle connection takes one.
-/

namespace HttpExchange

inductive Form
  | plain
  | buffered (buffer : WriteBuffer)
  | secured (session : SecureSession)
deriving DecidableEq, Repr

inductive Kind
  | plain | buffered | secured
deriving DecidableEq, Repr

def Kind.name : Kind → Bytes
  | plain => ascii "Plain"
  | buffered => ascii "PlainBuffered"
  | secured => ascii "Tls"

def Form.kind : Form → Kind
  | plain => .plain
  | buffered _ => .buffered
  | secured _ => .secured

/-- Where a connection stands between exchanges. -/
inductive Phase
  | idle
  | inBody
  | closed
  | poisoned
deriving DecidableEq, Repr

def Phase.name : Phase → Bytes
  | idle => ascii "Idle"
  | inBody => ascii "InBody"
  | closed => ascii "Closed"
  | poisoned => ascii "Poisoned"

/-- Why a phase takes no request, if it does not. -/
def Phase.refusal? : Phase → Option Refusal
  | idle => none
  | inBody => some .unreadBody
  | closed => some .closed
  | poisoned => some .failed

structure Connection where
  form : Form
  phase : Phase
  /-- Whether the connection holds the memory that its client lends. -/
  holdsLease : Bool
deriving DecidableEq, Repr

namespace Connection

def kind (c : Connection) : Kind := c.form.kind

def plain : Connection := ⟨.plain, .idle, false⟩

def buffered (capacity : Nat) : Connection := ⟨.buffered (.empty capacity), .idle, false⟩

def secured (session : SecureSession) : Connection := ⟨.secured session, .idle, false⟩

/-- Only an idle connection can start an exchange. -/
def ensureReusable (c : Connection) : Except Failure Unit :=
  match c.phase.refusal? with
  | none => .ok ()
  | some why => .error (.notReusable why)

theorem ensureReusable_of_idle {c : Connection} (h : c.phase = .idle) :
    c.ensureReusable = .ok () := by
  rw [ensureReusable, h]
  rfl

theorem ensureReusable_of_not_idle {c : Connection} (h : c.phase ≠ .idle) :
    ∃ why, c.ensureReusable = .error (.notReusable why) := by
  unfold ensureReusable
  cases hphase : c.phase with
  | idle => exact absurd hphase h
  | inBody => exact ⟨.unreadBody, rfl⟩
  | closed => exact ⟨.closed, rfl⟩
  | poisoned => exact ⟨.failed, rfl⟩

/-- A bare connection starts to coalesce its writes; the other forms do so already. -/
def intoBuffered (c : Connection) (capacity : Nat) : Connection :=
  match c.form with
  | .plain => { c with form := .buffered (.empty capacity) }
  | _ => c

end Connection

end HttpExchange
