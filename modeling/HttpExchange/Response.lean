import HttpExchange.Request
import HttpExchange.Response.Drain
import HttpExchange.Response.Head

/-!
# Responses

A response is the head of a message together with the bytes that came with it. It holds
the right to read the body, which goes out once: to the first reader that is asked for,
unless the response was moved, and then to the one it was moved to.
-/

namespace HttpExchange

structure Response where
  method : Method
  status : Status
  reason : Bytes
  block : HeaderBlock
  framing : Framing
  /-- The receive buffer behind the head: its size, and the bytes in it. -/
  room : Nat
  staged : Bytes
  bodyTaken : Bool
deriving DecidableEq, Repr

namespace Response

def ofHead (method : Method) (head : Head) : Response where
  method
  status := head.line.status
  reason := head.line.reason
  block := head.block
  framing := Framing.decide method head.line.status head.block
  room := head.room
  staged := head.rest
  bodyTaken := false

def contentLength? (r : Response) : Option Nat := Framing.declaredLength? r.block

def contentType? (r : Response) : Option MediaType :=
  (r.block.find? (ascii "Content-Type")).bind MediaType.ofText?

def isChunked (r : Response) : Bool := r.framing == .chunked

/-- Whether the server says that it will close the connection. -/
def announcesClose (r : Response) : Bool :=
  (r.block.find? (ascii "Connection")).any fun value => Bytes.hasToken value (ascii "close")

/-! ## Reading -/

/-- The phase that a response leaves its connection in. -/
def phaseAfter (r : Response) : Phase := if r.framing.isEmpty then .idle else .inBody

/-- What the journal says of a response. -/
def summary (r : Response) : List Bytes :=
  ascii "response: " :: Numeral.decimal r.status.code.toNat :: match r.framing with
    | .fixed n => [ascii " fixed body of ", Numeral.decimal n, ascii " bytes"]
    | framing => [ascii " ", framing.name, ascii " body"]

variable {σ : Type} [SecureTransport σ]

/-- Reads the head of the next response into a buffer of `capacity` bytes. A connection
that takes no request has no response to offer and stays as it is; any other failure
poisons it. -/
def read (l : Link σ) (method : Method) (capacity : Nat) : Except Failure Response × Link σ :=
  match l.connection.ensureReusable with
  | .error failure => (.error failure, l)
  | .ok () =>
    match Head.receive l capacity [] with
    | (.error failure, l) =>
      (.error failure, (l.enter .poisoned).log .debug [ascii "response: ", failure.message])
    | (.ok head, l) =>
      let r := ofHead method head
      (.ok r, (l.enter r.phaseAfter).log .debug r.summary)

/-! ## The right to read the body -/

def take (r : Response) : Response := { r with bodyTaken := true }

/-- A reader of the body, which is handed out once. -/
def body (r : Response) : Except Failure BodyReader × Response :=
  if r.bodyTaken then (.error .bodyTaken, r)
  else (.ok (.make r.framing r.room r.staged), r.take)

/-- The response at its new place, and what stays behind at the old one. -/
def move (r : Response) : Response × Response := (r, r.take)

/-- The same after a move onto a response that is there. A response that is moved onto itself
stays as it is. -/
def moveOnto (r : Response) (itself : Bool) : Response × Response :=
  if itself then (r, r) else r.move

end Response

/-! ## Exchanges -/

/-- Writes a request and reads the head of its response. -/
def Link.send {σ : Type} [SecureTransport σ] (l : Link σ) (request : Request) (capacity : Nat) :
    Except Failure Response × Link σ :=
  match request.write l with
  | (.error failure, l) => (.error failure, l)
  | (.ok (), l) => Response.read l request.method capacity

end HttpExchange
