import HttpExchange.Failure.Transport

/-!
# Failures of exchanges

An exchange fails for a cause, from which its class, its message, the transport error it
shows and the question whether the connection is still usable all follow.

A failure that does not poison the connection happened before a byte of the request
was written, so the request may be sent again elsewhere.
-/

namespace HttpExchange

/-! ## Causes -/

inductive StatusFault
  | notHttp | noCode | badCode
deriving DecidableEq, Repr

inductive HeaderFault
  | folded | noName | blankInName
deriving DecidableEq, Repr

inductive ChunkFault
  | sizeEnd | sizeCharacter | sizeOverflow | sizeMissing | dataEnd | trailerEnd
deriving DecidableEq, Repr

/-- What did not fit into the receive buffer. -/
inductive Oversize
  | statusLine | headers | body
deriving DecidableEq, Repr

/-- Where the stream ended too early. -/
inductive Cutoff
  | head | fixedBody (outstanding : Nat) | chunk | chunkFraming
deriving DecidableEq, Repr

/-- Why a connection takes no further request. -/
inductive Refusal
  | unreadBody | closed | failed
deriving DecidableEq, Repr

inductive UrlFault
  | length | scheme | slashes | file | fragment | query | path | user | password | port | colonAddress
  | noHost | host
deriving DecidableEq, Repr

inductive Failure
  | network (cause : TransportFailure)
  | cutOff (place : Cutoff)
  | unresolved (cause : TransportFailure)
  | unreachable (cause : TransportFailure)
  | insecure (cause : TransportFailure)
  | badUrl (text : Bytes) (fault : UrlFault)
  | unknownScheme (scheme : Bytes)
  | secureUnavailable
  | scratchInUse
  | tooLong (part : Oversize)
  | badStatus (fault : StatusFault)
  | badHeader (fault : HeaderFault)
  | badChunk (fault : ChunkFault)
  | alreadySent
  | bodyTaken
  | notReusable (why : Refusal)
deriving DecidableEq, Repr

/-! ## Classes -/

inductive HttpError
  | network | dns | tls | invalidUrl | unsupportedScheme | bufferTooSmall | malformedStatus
  | malformedHeader | chunkFraming | alreadySent | bodyAlreadyTaken | connectionNotReusable
  | tlsBuffersInUse
deriving DecidableEq, Repr

namespace HttpError

def all : List HttpError :=
  [network, dns, tls, invalidUrl, unsupportedScheme, bufferTooSmall, malformedStatus,
    malformedHeader, chunkFraming, alreadySent, bodyAlreadyTaken, connectionNotReusable,
    tlsBuffersInUse]

def name : HttpError → Bytes
  | network => ascii "network error"
  | dns => ascii "dns resolution failed"
  | tls => ascii "tls error"
  | invalidUrl => ascii "invalid url"
  | unsupportedScheme => ascii "unsupported scheme"
  | bufferTooSmall => ascii "buffer too small"
  | malformedStatus => ascii "malformed status line"
  | malformedHeader => ascii "malformed header"
  | chunkFraming => ascii "invalid chunked framing"
  | alreadySent => ascii "request already sent"
  | bodyAlreadyTaken => ascii "response body already taken"
  | connectionNotReusable => ascii "connection not reusable"
  | tlsBuffersInUse => ascii "TLS buffers in use"

def nameAt (n : Nat) : Bytes := (all[n]?.map name).getD (ascii "unknown")

end HttpError

def StatusFault.message : StatusFault → Bytes
  | notHttp => ascii "Status line does not start with HTTP/"
  | noCode => ascii "Status line has no status code"
  | badCode => ascii "Status code is not three digits"

def HeaderFault.message : HeaderFault → Bytes
  | folded => ascii "Folded or empty header line"
  | noName => ascii "Header line without name"
  | blankInName => ascii "Whitespace in header name"

def ChunkFault.message : ChunkFault → Bytes
  | sizeEnd => ascii "Chunk size line not terminated by CRLF"
  | sizeCharacter => ascii "Invalid character in chunk size"
  | sizeOverflow => ascii "Chunk size overflows"
  | sizeMissing => ascii "Empty chunk size"
  | dataEnd => ascii "Chunk data not followed by CRLF"
  | trailerEnd => ascii "Trailer line not terminated by CRLF"

def Oversize.message : Oversize → Bytes
  | statusLine => ascii "Status line does not fit in the receive buffer"
  | headers => ascii "Response headers do not fit in the receive buffer"
  | body => ascii "Response body does not fit in the receive buffer"

def Cutoff.message : Cutoff → Bytes
  | head => ascii "Connection closed before the response header block ended"
  | fixedBody outstanding =>
    ascii "Connection closed with " ++ Numeral.decimal outstanding ++ ascii " body bytes outstanding"
  | chunk => ascii "Connection closed inside a chunk"
  | chunkFraming => ascii "Connection closed inside chunked framing"

def Refusal.message : Refusal → Bytes
  | unreadBody => ascii "Previous response body was not read to its end"
  | closed => ascii "Connection was closed"
  | failed => ascii "Connection failed during a previous exchange"

def UrlFault.message : UrlFault → Bytes
  | length => ascii "Malformed input to a URL function"
  | scheme => ascii "Bad scheme"
  | slashes => ascii "Unsupported number of slashes following scheme"
  | file => ascii "Bad file:// URL"
  | fragment => ascii "Bad fragment"
  | query => ascii "Bad query"
  | path => ascii "Bad path"
  | user => ascii "Bad user"
  | password => ascii "Bad password"
  | port => ascii "Port number was not a decimal number between 0 and 65535"
  | colonAddress => ascii "Bad IPv6 address"
  | noHost => ascii "No host part in the URL"
  | host => ascii "Bad hostname"

namespace Failure

def error : Failure → HttpError
  | network _ | cutOff _ | unreachable _ => .network
  | unresolved _ => .dns
  | insecure _ => .tls
  | badUrl _ _ => .invalidUrl
  | unknownScheme _ | secureUnavailable => .unsupportedScheme
  | scratchInUse => .tlsBuffersInUse
  | tooLong _ => .bufferTooSmall
  | badStatus _ => .malformedStatus
  | badHeader _ => .malformedHeader
  | badChunk _ => .chunkFraming
  | alreadySent => .alreadySent
  | bodyTaken => .bodyAlreadyTaken
  | notReusable _ => .connectionNotReusable

def message : Failure → Bytes
  | network cause | unresolved cause | unreachable cause | insecure cause => cause.message
  | cutOff place => place.message
  | badUrl text fault => ascii "Invalid URL '" ++ text ++ ascii "': " ++ fault.message
  | unknownScheme scheme => ascii "Unsupported URL scheme '" ++ scheme ++ ascii "'"
  | secureUnavailable => ascii "https requires a TLS configuration on the client"
  | scratchInUse => ascii "TLS buffers are held by another live connection; close it first"
  | tooLong part => part.message
  | badStatus fault => fault.message
  | badHeader fault => fault.message
  | badChunk fault => fault.message
  | alreadySent => ascii "Request was already sent on this handle"
  | bodyTaken => ascii "Response body reader already handed out"
  | notReusable why => why.message

/-- Whether the framing position of the connection is lost. -/
def poisons : Failure → Bool
  | network _ | cutOff _ | tooLong _ | badStatus _ | badHeader _ | badChunk _ => true
  | _ => false

/-- No byte of the request reached the transport. -/
def retrySafe (f : Failure) : Bool := !f.poisons

/-- The transport error shown with a failure: the transport's own where it has one, else
a failed connection before the exchange and a failed read during it. -/
def transportError : Failure → TransportError
  | network cause | unresolved cause | unreachable cause | insecure cause => cause.error
  | cutOff _ => .unexpectedEnd
  | tooLong _ | badStatus _ | badHeader _ | badChunk _ => .readError
  | _ => .connectionFailed

end Failure

end HttpExchange
