import HttpExchange.Header
import HttpExchange.Method
import HttpExchange.Numeral
import HttpExchange.Status

/-!
# Where a response body ends

A response to HEAD and one whose status allows no body have none. Otherwise chunked
transfer coding counts first, then a declared length, and without either the body ends
with the stream.
-/

namespace HttpExchange

inductive Framing
  | fixed (length : Nat)
  | chunked
  | toClose
deriving DecidableEq, Repr

namespace Framing

def name : Framing → Bytes
  | fixed _ => ascii "fixed"
  | chunked => ascii "chunked"
  | toClose => ascii "to-close"

/-- The length that the first Content-Length header declares, if its value is a number. -/
def declaredLength? (block : HeaderBlock) : Option Nat :=
  (block.find? (ascii "Content-Length")).bind fun value => Numeral.word64? (Bytes.trim value)

/-- Whether the first Transfer-Encoding header names the chunked coding. -/
def isChunked (block : HeaderBlock) : Bool :=
  (block.find? (ascii "Transfer-Encoding")).any fun value => Bytes.hasToken value (ascii "chunked")

def decide (method : Method) (status : Status) (block : HeaderBlock) : Framing :=
  if method = .head ∨ status.hasBody = false then .fixed 0
  else if isChunked block then .chunked
  else match declaredLength? block with
    | some length => .fixed length
    | none => .toClose

/-- There is nothing to read. -/
def isEmpty (f : Framing) : Bool := f == .fixed 0

end Framing

end HttpExchange
