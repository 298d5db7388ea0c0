import HttpExchange.Failure.Transport

/-!
# Request bodies

A body streams itself: it hands over fragments one at a time, learns of each whether it
was written, and in the end reports success or a failure of its own. The body of a known
size is sent with that size ahead of it, any other in chunks.
-/

namespace HttpExchange

/-- What a body does when it streams itself. -/
inductive Emission
  | done
  | failed (failure : TransportFailure)
  | write (data : Bytes) (next : Except TransportFailure Unit → Emission)

namespace Emission

/-- Hands over the fragments and stops at the first that was not written. -/
def careful (ending : Emission) : List Bytes → Emission
  | [] => ending
  | data :: rest => write data fun
    | .ok () => careful ending rest
    | .error failure => failed failure

/-- Hands over the fragments, written or not. -/
def heedless (ending : Emission) : List Bytes → Emission
  | [] => ending
  | data :: rest => write data fun _ => heedless ending rest

/-- The fragments of an emission whose every write succeeds. -/
def fragments : Emission → List Bytes
  | done => []
  | failed _ => []
  | write data next => data :: (next (.ok ())).fragments

end Emission

structure Body where
  size : Option Nat
  emission : Emission

namespace Body

/-- A body that is there as a whole. -/
def ofBytes (data : Bytes) : Body := ⟨some data.length, .careful .done [data]⟩

/-- A body in fragments, each of which goes out as a chunk. -/
def ofFragments (fragments : List Bytes) : Body := ⟨none, .careful .done fragments⟩

end Body

end HttpExchange
