import HttpExchange.Response
import HttpExchange.Url

/-!
# Resources

A resource is a scope over one connection: every request goes below the path of its URL.
A request is prepared by a builder, which sends it once, or is handed over as a whole.
-/

namespace HttpExchange

/-! ## Builders -/

/-- A request below the path of a resource; it goes out once, on the connection of the
resource. -/
structure Builder where
  basePath : Bytes
  pending : Option Request

namespace Builder

def apply (b : Builder) (settings : List Request.Setting) : Builder :=
  { b with pending := b.pending.map fun r => r.applyAll settings }

variable {σ : Type} [SecureTransport σ]

def send (b : Builder) (l : Link σ) (capacity : Nat) : Except Failure Response × Builder × Link σ :=
  match b.pending with
  | none => (.error .alreadySent, b, l)
  | some request =>
    let (outcome, l) := l.send { request with basePath := some b.basePath } capacity
    (outcome, { b with pending := none }, l)

end Builder

/-! ## Scopes -/

/-- A scope over one connection, whose requests go below the path of its URL. -/
structure Resource where
  url : Url
deriving DecidableEq, Repr

namespace Resource

def request (s : Resource) (method : Method) (path : Bytes) : Builder :=
  ⟨s.url.path, some { Request.make method path with host := some s.url.host }⟩

/-- A request that names no host goes to the host of the resource. -/
def place (s : Resource) (request : Request) : Request :=
  { request with basePath := some s.url.path, host := request.host <|> some s.url.host }

variable {σ : Type} [SecureTransport σ]

def send (s : Resource) (l : Link σ) (request : Request) (capacity : Nat) :
    Except Failure Response × Link σ :=
  l.send (s.place request) capacity

end Resource

end HttpExchange
