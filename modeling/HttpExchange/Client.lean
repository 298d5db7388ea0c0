import HttpExchange.Response
import HttpExchange.Url

/-!
# Clients

A client turns a URL into a connection: it looks the host up, connects to the address and
runs a handshake if the scheme asks for one. What goes wrong on the way has touched no
exchange yet, so it never poisons anything.

A client with a secure configuration owns one scratch memory and lends it to one
connection at a time, http or https; while it is lent no other connection is made.
-/

namespace HttpExchange

/-- Name lookup and dialling, as they answer during one setup. -/
structure Network (σ : Type) where
  resolve : Bytes → Except TransportFailure IpAddress
  dial : IpAddress → UInt16 → Except TransportFailure σ

structure Client where
  secure : Option SecureConfig
  scratch : Scratch
deriving DecidableEq, Repr

namespace Client

variable {σ : Type}

/-- What came of an attempt to set a connection up. -/
structure Setup (σ : Type) where
  connection : Except Failure Connection
  client : Client
  /-- The transport, once it was dialled. -/
  wire : Option σ
  lookups : List Bytes
  dials : List (IpAddress × UInt16)
  journal : Journal

def lend (client : Client) : Client := { client with scratch := { client.scratch with held := true } }

def note (level : Level) (texts : List Bytes) : Entry :=
  .note level (ascii "client: " :: texts)

def portText (port : UInt16) : Bytes := Numeral.decimal port.toNat

/-- The journal entry of a connection that was made. -/
def connected (url : Url) (kind : Kind) : Entry :=
  note .info [ascii "connected to ", url.host, ascii ":", portText url.portNumber, ascii " (",
    kind.name, ascii ")"]

/-- Why a URL is refused before anything is looked up. -/
def refusal? (client : Client) (url : Url) : Option Failure :=
  match client.secure with
  | none => if url.scheme = .https then some .secureUnavailable else none
  | some _ => if client.scratch.held then some .scratchInUse else none

variable [SecureTransport σ]

/-- Puts a connection on a transport that was dialled. Only https shakes hands; with a
secure configuration http coalesces its writes in the memory that is lent to it. -/
def furnish (client : Client) (url : Url) (wire : σ) :
    Except Failure Connection × Client × σ × Journal :=
  match client.secure with
  | none => (.ok .plain, client, wire, [connected url .plain])
  | some config =>
    match url.scheme with
    | .http =>
      (.ok { Connection.buffered config.sendCapacity with holdsLease := true }, client.lend, wire,
        [connected url .buffered])
    | .https =>
      -- The seed has moved on even when the handshake fails.
      let opening := SecureSession.start wire url.host config
      let client := { client with secure := some opening.config }
      match opening.session with
      | .error failure =>
        (.error (.insecure failure), client, opening.wire, opening.journal ++ [note .warn
          [ascii "TLS handshake with ", url.host, ascii " failed: ", failure.message]])
      | .ok session =>
        (.ok { Connection.secured session with holdsLease := true }, client.lend, opening.wire,
          opening.journal ++ [connected url .secured])

def connect (client : Client) (network : Network σ) (url : Url) : Setup σ :=
  match client.refusal? url with
  | some failure => ⟨.error failure, client, none, [], [], []⟩
  | none =>
    match network.resolve url.host with
    | .error failure => ⟨.error (.unresolved failure), client, none, [url.host], [],
        [note .debug [ascii "resolve ", url.host, ascii " failed: ", failure.message]]⟩
    | .ok address =>
      let found := note .debug
        [url.host, ascii " -> ", address.text, ascii ":", portText url.portNumber]
      let dials := [(address, url.portNumber)]
      match network.dial address url.portNumber with
      | .error failure => ⟨.error (.unreachable failure), client, none, [url.host], dials,
          [found, note .debug [ascii "connect ", address.text, ascii " failed: ", failure.message]]⟩
      | .ok wire =>
        let (connection, client, wire, journal) := client.furnish url wire
        ⟨connection, client, some wire, [url.host], dials, found :: journal⟩

/-- Sets up a connection for the text of a URL. -/
def reach (client : Client) (network : Network σ) (text : Bytes) :
    Except Failure Url × Setup σ :=
  match Url.parse text with
  | .error failure => (.error failure, ⟨.error failure, client, none, [], [], []⟩)
  | .ok url =>
    let setup := client.connect network url
    (setup.connection.map fun _ => url, setup)

end Client

end HttpExchange
