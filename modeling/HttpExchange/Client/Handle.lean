import HttpExchange.Response
import HttpExchange.Url

/-!
# Single-use requests

A handle is a request that a client has made together with a connection for it. It starts
out with the host and path of its URL, takes settings until it is sent, and goes out once.
-/

namespace HttpExchange

/-- A request that is bound to a connection of its own and goes out once. -/
structure Handle where
  url : Url
  pending : Option Request

namespace Handle

/-- The request starts with the host and path of its URL. -/
def make (method : Method) (url : Url) : Handle :=
  ⟨url, some { Request.make method url.path with host := some url.host }⟩

/-- Settings after the request was sent change nothing. -/
def apply (h : Handle) (settings : List Request.Setting) : Handle :=
  { h with pending := h.pending.map fun r => r.applyAll settings }

variable {σ : Type} [SecureTransport σ]

def send (h : Handle) (l : Link σ) (capacity : Nat) : Except Failure Response × Handle × Link σ :=
  match h.pending with
  | none => (.error .alreadySent, h, l)
  | some request =>
    let (outcome, l) := l.send request capacity
    (outcome, { h with pending := none }, l)

end Handle

end HttpExchange
