import HttpExchange.Base64
import HttpExchange.Header
import HttpExchange.MediaType
import HttpExchange.Request.Pen

/-!
# Requests

A request is written as a head, in pieces of a fixed order, and then its body. The line
that announces the body comes last in the head: its size when it is known, chunked
transfer coding when it is not, and nothing when there is no body.

`serialized` is the whole text of a request whose every write succeeds.
-/

namespace HttpExchange

structure Credentials where
  user : Bytes
  password : Bytes
deriving DecidableEq, Repr

structure Request where
  method : Method
  path : Bytes
  host : Option Bytes
  basePath : Option Bytes
  headers : List Header
  contentType : Option MediaType
  credentials : Option Credentials
  body : Option Body

namespace Request

def make (method : Method) (path : Bytes) : Request :=
  ⟨method, path, none, none, [], none, none, none⟩

/-! ## Settings -/

inductive Setting
  | path (path : Bytes)
  | host (host : Bytes)
  | headers (headers : List Header)
  | contentType (type : MediaType)
  | credentials (credentials : Credentials)
  | body (body : Body)

/-- A setting replaces what was set before. -/
def apply (r : Request) : Setting → Request
  | .path path => { r with path }
  | .host host => { r with host := some host }
  | .headers headers => { r with headers }
  | .contentType type => { r with contentType := some type }
  | .credentials credentials => { r with credentials := some credentials }
  | .body body => { r with body := some body }

def applyAll (r : Request) (settings : List Setting) : Request := settings.foldl apply r

/-! ## The pieces of the head -/

/-- The pieces of a path below a base, with exactly one slash where they meet. -/
def pathBelow (base path : Bytes) : List Bytes :=
  if path = [] then [base]
  else
    match base.getLast? == some Byte.slash, path.head? == some Byte.slash with
    | true, true => [base, path.tail]
    | false, false => [base, [Byte.slash], path]
    | _, _ => [base, path]

/-- The target of the request; an empty one is the root. -/
def targetPieces (r : Request) : List Bytes :=
  match r.basePath with
  | none | some [] => [if r.path = [] then [Byte.slash] else r.path]
  | some base => pathBelow base r.path

def headerPieces (name value : Bytes) : List Bytes := [name, ascii ": ", value, Bytes.crlf]

def credentialPieces (c : Credentials) : List Bytes :=
  ascii "Authorization: Basic " :: Base64.staged [c.user, [Byte.colon], c.password]
    ++ [Bytes.crlf]

/-- The line that says where the body ends. -/
def framingPieces (body : Body) : List Bytes :=
  match body.size with
  | some n => [ascii "Content-Length: ", Numeral.decimal n, Bytes.crlf]
  | none => headerPieces (ascii "Transfer-Encoding") (ascii "chunked")

def headPieces (r : Request) : List Bytes :=
  r.method.token :: ascii " " :: r.targetPieces ++ [ascii " HTTP/1.1\r\n"]
    ++ (r.host.map (headerPieces (ascii "Host"))).getD []
    ++ r.headers.flatMap (fun h => headerPieces h.name h.value)
    ++ (r.contentType.map fun t => headerPieces (ascii "Content-Type") t.name).getD []
    ++ (r.credentials.map credentialPieces).getD []
    ++ (r.body.map framingPieces).getD []
    ++ [Bytes.crlf]

/-! ## The whole text -/

/-- A body as it stands on the wire. -/
def framedBody (body : Body) : Bytes :=
  match body.size with
  | some _ => body.emission.fragments.flatten
  | none => (body.emission.fragments.flatMap Pen.chunkPieces).flatten ++ Pen.lastChunk

def serialized (r : Request) : Bytes :=
  r.headPieces.flatten ++ (r.body.map framedBody).getD []

/-! ## Writing -/

variable {σ : Type} [SecureTransport σ]

/-- Writes a request on an idle connection and flushes it. A failure on the way leaves the
connection poisoned. -/
def write (r : Request) (link : Link σ) : Except Failure Unit × Link σ :=
  match link.connection.ensureReusable with
  | .error failure => (.error failure, link)
  | .ok () =>
    let pen := (Pen.on link).putAll r.headPieces
    let pen := (r.body.map pen.putBody).getD pen
    let pen := pen.flush
    match pen.failure with
    | some failure =>
      (.error (.network failure), (pen.link.enter .poisoned).log .debug
        [ascii "request: ", r.method.token, ascii " ", r.path, ascii " failed: ", failure.message])
    | none =>
      (.ok (), pen.link.log .trace
        [ascii "request: ", r.method.token, ascii " ", r.path, ascii " written"])

end Request

end HttpExchange
