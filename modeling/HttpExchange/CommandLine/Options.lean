import HttpExchange.Header
import HttpExchange.MediaType
import HttpExchange.Method
import HttpExchange.Numeral

/-!
# Options

The options behind method and URL, taken in order. Reading stops at the first that is
wrong, and an option whose value is missing counts as unknown.
-/

namespace HttpExchange

namespace CommandLine

/-- What is wrong with a command line. -/
inductive Fault
  | usage
  | method (text : Bytes)
  | mediaType (text : Bytes)
  | seed
  | timeout
  | receiveCapacity
  | option (text : Bytes)
  | header (line : Bytes)
  | sharedKey
  | user
deriving DecidableEq, Repr

/-- The options as they were given. -/
structure Options where
  timeout : Int
  receiveCapacity : Nat
  seed : UInt64
  buffered : Bool
  chunked : Bool
  insecure : Bool
  headerLines : List Bytes
  data : Option Bytes
  contentType : Option MediaType
  user : Option Bytes
  sharedKey : Option Bytes
  path : Option Bytes
deriving DecidableEq, Repr

namespace Options

def initial : Options :=
  ⟨30, 16384, 0x5eed, false, false, false, [], none, none, none, none, none⟩

/-! ## Single options -/

/-- An option that stands alone. -/
def flag (o : Options) (word : Bytes) : Except Fault Options :=
  if word = ascii "--chunked" then .ok { o with chunked := true }
  else if word = ascii "--buffered" then .ok { o with buffered := true }
  else if word = ascii "--insecure" then .ok { o with insecure := true }
  else .error (.option word)

/-- An option with a value, if the word names one. -/
def valued? (o : Options) (word value : Bytes) : Option (Except Fault Options) :=
  if word = ascii "--header" then some (.ok { o with headerLines := o.headerLines ++ [value] })
  else if word = ascii "--data" then some (.ok { o with data := some value })
  else if word = ascii "--content-type" then
    some (match MediaType.ofText? value with
      | some type => .ok { o with contentType := some type }
      | none => .error (.mediaType value))
  else if word = ascii "--user" then some (.ok { o with user := some value })
  else if word = ascii "--psk" then some (.ok { o with sharedKey := some value })
  else if word = ascii "--seed" then
    some (match Numeral.word64? value with
      | some n => .ok { o with seed := UInt64.ofNat n }
      | none => .error .seed)
  else if word = ascii "--timeout" then
    some (match Numeral.int32? value with
      | some n => .ok { o with timeout := n }
      | none => .error .timeout)
  else if word = ascii "--rx-buffer" then
    some (match Numeral.word64? value with
      | some (n + 1) => .ok { o with receiveCapacity := n + 1 }
      | _ => .error .receiveCapacity)
  else if word = ascii "--path" then some (.ok { o with path := some value })
  else none

/-! ## All options -/

def read (o : Options) : List Bytes → Except Fault Options
  | [] => .ok o
  | [word] => o.flag word
  | word :: value :: rest =>
    match o.valued? word value with
    | some (.ok o) => o.read rest
    | some (.error fault) => .error fault
    | none =>
      match o.flag word with
      | .ok o => o.read (value :: rest)
      | .error fault => .error fault

end Options

end CommandLine

end HttpExchange
