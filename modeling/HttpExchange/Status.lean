import HttpExchange.Bytes

/-!
# Status codes
-/

namespace HttpExchange

structure Status where
  code : UInt16
deriving DecidableEq, Repr

namespace Status

def isInformational (s : Status) : Bool := 100 ≤ s.code && s.code < 200

def isSuccess (s : Status) : Bool := 200 ≤ s.code && s.code < 300

def isRedirection (s : Status) : Bool := 300 ≤ s.code && s.code < 400

def isClientError (s : Status) : Bool := 400 ≤ s.code && s.code < 500

def isServerError (s : Status) : Bool := 500 ≤ s.code && s.code < 600

/-- Responses with a 1xx, 204 or 304 code never carry a body. -/
def hasBody (s : Status) : Bool := !s.isInformational && s.code != 204 && s.code != 304

end Status

end HttpExchange
