import HttpExchange.Link
import HttpExchange.Request.Body

/-!
# Writing on a link

A pen writes pieces on a link one after another and stops at its first failure: after
that it writes nothing more. Empty pieces are not written at all. Bodies are streamed
through a pen, either as they are or with chunk framing around every fragment.
-/

namespace HttpExchange

structure Pen (σ : Type) where
  link : Link σ
  failure : Option TransportFailure
  /-- How many bytes a body of known size has handed over. -/
  streamed : Nat

namespace Pen

variable {σ : Type}

def on (link : Link σ) : Pen σ := ⟨link, none, 0⟩

def status (pen : Pen σ) : Except TransportFailure Unit :=
  match pen.failure with
  | none => .ok ()
  | some failure => .error failure

/-- Only the first failure counts. -/
def fail (pen : Pen σ) (failure : TransportFailure) : Pen σ :=
  { pen with failure := pen.failure <|> some failure }

variable [SecureTransport σ]

def put (pen : Pen σ) (piece : Bytes) : Pen σ :=
  if pen.failure.isSome ∨ piece = [] then pen
  else match pen.link.writeAll piece with
    | (.ok (), link) => { pen with link }
    | (.error failure, link) => { pen with link, failure := some failure }

def putAll (pen : Pen σ) (pieces : List Bytes) : Pen σ := pieces.foldl put pen

/-- A pen that has failed does not flush. -/
def flush (pen : Pen σ) : Pen σ :=
  if pen.failure.isSome then pen
  else match pen.link.flush with
    | (.ok (), link) => { pen with link }
    | (.error failure, link) => { pen with link, failure := some failure }

/-! ## Bodies -/

/-- Streams an emission, each fragment through `emit`; the verdict is the body's own. -/
def stream (emit : Pen σ → Bytes → Pen σ) : Emission → Pen σ → Except TransportFailure Unit × Pen σ
  | .done, pen => (.ok (), pen)
  | .failed failure, pen => (.error failure, pen)
  | .write data next, pen => stream emit (next (emit pen data).status) (emit pen data)

/-- A fragment of a body of known size goes out as it is, and counts even when it fails. -/
def putFragment (pen : Pen σ) (data : Bytes) : Pen σ :=
  let pen := pen.put data
  { pen with streamed := pen.streamed + data.length }

/-- The pieces of a chunk. An empty fragment has none: it would end the body. -/
def chunkPieces (data : Bytes) : List Bytes :=
  if data = [] then []
  else [Numeral.hexadecimal data.length, Bytes.crlf, data, Bytes.crlf]

def putChunk (pen : Pen σ) (data : Bytes) : Pen σ := pen.putAll (chunkPieces data)

/-- The chunk of size zero and the empty trailer. -/
def lastChunk : Bytes := ascii "0\r\n\r\n"

/-- A body that failed on its own, or is not as long as it said, fails the pen. -/
def putBody (pen : Pen σ) (body : Body) : Pen σ :=
  if pen.failure.isSome then pen
  else match body.size with
    | some declared =>
      -- The body's own failure counts first, then its length.
      match stream putFragment body.emission pen with
      | (.error failure, pen) => pen.fail failure
      | (.ok (), pen) =>
        if pen.streamed = declared then pen else pen.fail (.wrongLength pen.streamed declared)
    | none =>
      match stream putChunk body.emission pen with
      | (.error failure, pen) => pen.fail failure
      | (.ok (), pen) => pen.put lastChunk

end Pen

end HttpExchange
