import HttpExchange.Bytes

/-!
# Request methods
-/

namespace HttpExchange

inductive Method
  | get | post | put | delete | head | options | connect | trace | patch
deriving DecidableEq, Repr

namespace Method

def all : List Method :=
  [get, post, put, delete, head, options, connect, trace, patch]

/-- The method as it stands on the request line. -/
def token : Method → Bytes
  | get => ascii "GET"
  | post => ascii "POST"
  | put => ascii "PUT"
  | delete => ascii "DELETE"
  | head => ascii "HEAD"
  | options => ascii "OPTIONS"
  | connect => ascii "CONNECT"
  | trace => ascii "TRACE"
  | patch => ascii "PATCH"

/-- The place of a method in `all`. -/
def index (m : Method) : Nat := all.idxOf m

/-- The token at a place of `all`; `GET` stands in past its end. -/
def tokenAt (n : Nat) : Bytes := (all[n]?.getD get).token

/-- The method that a text names in any case. -/
def ofText? (s : Bytes) : Option Method :=
  all.find? fun m => Bytes.equalsIgnoringCase s m.token

end Method

end HttpExchange
