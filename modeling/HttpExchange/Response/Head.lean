import HttpExchange.Header
import HttpExchange.Link
import HttpExchange.Status

/-!
# The head of a response

A head is a status line, a header block and an empty line. `HeadScan.of` says what the
bytes received so far amount to; it looks at the bytes alone and not at how they came.
`receive` reads until the scan is decided, never more than the receive buffer holds and
never again after the end of the stream.

A faulty status line counts as soon as its CRLF is there, before anything that may still
be missing or not fit.
-/

namespace HttpExchange

structure StatusLine where
  status : Status
  reason : Bytes
deriving DecidableEq, Repr

namespace StatusLine

def protocolMark : Bytes := ascii "HTTP/"

/-- The code of three digits. -/
def code? (a b c : UInt8) : Option Status :=
  if Byte.isDigit a ∧ Byte.isDigit b ∧ Byte.isDigit c then
    some ⟨((a - 48).toUInt16 * 10 + (b - 48).toUInt16) * 10 + (c - 48).toUInt16⟩
  else none

def parse (line : Bytes) : Except StatusFault StatusLine :=
  if !protocolMark.isPrefixOf line then .error .notHttp
  else match Bytes.cutAt? Byte.sp line with
    | none => .error .noCode
    | some (_, a :: b :: c :: []) =>
      match code? a b c with
      | some status => .ok ⟨status, []⟩
      | none => .error .badCode
    | some (_, a :: b :: c :: d :: reason) =>
      if d = Byte.sp then
        match code? a b c with
        | some status => .ok ⟨status, reason⟩
        | none => .error .badCode
      else .error .badCode
    | some _ => .error .badCode

end StatusLine

/-- What the bytes received so far amount to. -/
inductive HeadScan
  | incomplete (statusSeen : Bool)
  | malformed (fault : StatusFault)
  | complete (line : StatusLine) (block : HeaderBlock) (rest : Bytes)
deriving DecidableEq, Repr

/-- The empty line may share its first CRLF with the status line. -/
def HeadScan.of (received : Bytes) : HeadScan :=
  match Bytes.cutLine received with
  | none => .incomplete false
  | some (line, rest) =>
    match StatusLine.parse line with
    | .error fault => .malformed fault
    | .ok line =>
      match Bytes.cutBlankLine (Bytes.crlf ++ rest) with
      | none => .incomplete true
      | some (before, after) => .complete line ⟨(before ++ Bytes.crlf).drop 2⟩ after

structure Head where
  line : StatusLine
  block : HeaderBlock
  /-- The bytes that came with the head and belong behind it. -/
  rest : Bytes
  /-- The room in the receive buffer behind the head. -/
  room : Nat
deriving DecidableEq, Repr

namespace Head

variable {σ : Type} [SecureTransport σ]

/-- What did not fit when the receive buffer is full. -/
def overflow (statusSeen : Bool) : Oversize := if statusSeen then .headers else .statusLine

/-- Reads on from what was received into a buffer of `capacity` bytes. -/
def receive (l : Link σ) (capacity : Nat) (received : Bytes) : Except Failure Head × Link σ :=
  match HeadScan.of received with
  | .malformed fault => (.error (.badStatus fault), l)
  | .complete line block rest =>
    match block.fault? with
    | some fault => (.error (.badHeader fault), l)
    | none => (.ok ⟨line, block, rest, capacity - (received.length - rest.length)⟩, l)
  | .incomplete statusSeen =>
    -- A full buffer is not read into, not even to see the end of the stream.
    if capacity ≤ received.length then (.error (.tooLong (overflow statusSeen)), l)
    else match l.read (capacity - received.length) with
      | (.error failure, l) => (.error (.network failure), l)
      | (.ok [], l) => (.error (.cutOff .head), l)
      | (.ok (b :: bytes), l) => receive l capacity (received ++ b :: bytes)
termination_by capacity - received.length
decreasing_by simp only [List.length_append, List.length_cons]; omega

end Head

end HttpExchange
