import HttpExchange.Client
import HttpExchange.Client.Handle
import HttpExchange.Client.Resource
import HttpExchange.Script.Activity
import HttpExchange.Script.Peer

/-!
# Steps and answers

A session works on named objects: connections and write buffers over scripted far ends,
clients, and what clients, connections and responses hand out. A step is one operation on
them, an answer what the operation came to. A step that names something missing, or gives
a name that is taken, is answered by a complaint and changes nothing.
-/

namespace HttpExchange

/-- What a step does to a stream, whether a connection or a bare write buffer. -/
inductive StreamStep
  | write (data : Bytes)
  | writeAll (data : Bytes)
  | read (n : Nat)
  | flush
  | close
deriving DecidableEq, Repr

/-- What a step asks of a body reader. -/
inductive ReaderStep
  | read (n : Nat)
  | readAll (n : Nat)
  | readToEnd
  | discard
deriving DecidableEq, Repr

/-- What a new connection is made of. -/
inductive Making
  | plain
  | buffered (capacity : Nat)
  | secured (server : Bytes) (config : SecureConfig)
deriving DecidableEq, Repr

/-- How the network answers while a client sets up a connection over a script. -/
structure Weather where
  lookupFails : Bool
  dialFails : Bool
  address : IpAddress
deriving DecidableEq, Repr

/-- The network of one setup, which leads to `wire` if it leads anywhere. -/
def Weather.network (weather : Weather) (wire : Script) : Network Script where
  resolve _ :=
    if weather.lookupFails then .error ⟨.dnsError, ascii "no such host"⟩ else .ok weather.address
  dial _ _ :=
    if weather.dialFails then .error ⟨.connectionFailed, ascii "connection refused"⟩ else .ok wire

/-- What a client is asked for. -/
inductive Errand
  | request (method : Method)
  | resource
deriving DecidableEq, Repr

/-- A change of a script; what is not given stays. -/
structure Adjustment where
  inbound : List Bytes
  maxRead : Option Nat
  maxWrite : Option Nat
  writeBudget : Option Nat
  /-- A failure that is given may be none, and is then removed. -/
  failRead : Option (Option TransportError)
  failWrite : Option (Option TransportError)
  failFlush : Option (Option TransportError)
  /-- How many further calls succeed before a failure starts. -/
  readsAllowed : Option Nat
  writesAllowed : Option Nat
  peer : Option Peer
deriving DecidableEq, Repr

namespace Adjustment

def apply (a : Adjustment) (s : Script) : Script :=
  { s with
    inbound := s.inbound ++ a.inbound
    maxRead := a.maxRead <|> s.maxRead
    maxWrite := a.maxWrite <|> s.maxWrite
    writeBudget := a.writeBudget <|> s.writeBudget
    failRead := a.failRead.getD s.failRead
    failWrite := a.failWrite.getD s.failWrite
    failFlush := a.failFlush.getD s.failFlush
    readsAllowed := (a.readsAllowed.map (s.reads + ·)).getD s.readsAllowed
    writesAllowed := (a.writesAllowed.map (s.writes + ·)).getD s.writesAllowed
    peer := a.peer <|> s.peer }

/-- The script that starts out with these settings. -/
def script (a : Adjustment) : Script := a.apply .empty

end Adjustment

inductive Step
  | push (script : Nat) (data : Bytes)
  | adjust (script : Nat) (adjustment : Adjustment)
  | connection (name : Bytes) (script : Nat) (making : Making)
  | writeBuffer (name : Bytes) (script : Nat) (capacity : Nat)
  | intoBuffered (target : Bytes) (capacity : Nat)
  | stream (target : Bytes) (step : StreamStep)
  | ensure (target : Bytes)
  | writeRequest (target : Bytes) (request : Request)
  | readResponse (target name : Bytes) (method : Method) (capacity : Nat)
  | send (target name : Bytes) (request : Request) (capacity : Nat)
  | client (name : Bytes) (secure : Option SecureConfig)
  | reach (client name : Bytes) (script : Nat) (errand : Errand) (url : Bytes) (weather : Weather)
  | builder (resource name : Bytes) (method : Method) (path : Bytes)
  | set (target : Bytes) (settings : List Request.Setting)
  | lookup (response header : Bytes)
  | inspect (response : Bytes)
  | move (response name : Bytes)
  | moveOnto (response other : Bytes)
  | body (response name : Bytes)
  | reader (target : Bytes) (step : ReaderStep)
  | drop (target : Bytes)

/-- Why a step was not done. -/
inductive Complaint
  | noObject | noConnection | nameInUse
deriving DecidableEq, Repr

def Complaint.message : Complaint → Bytes
  | noObject => ascii "no such object"
  | noConnection => ascii "no such connection"
  | nameInUse => ascii "name in use"

/-- What a client has handed out. -/
inductive Reached
  | request (url : Url)
  | resource (host basePath : Bytes)
deriving DecidableEq, Repr

inductive Answer
  | done
  | ok
  | count (n : Nat)
  | data (bytes : Bytes)
  | value (found : Option Bytes)
  | refused (failure : TransportFailure)
  | failed (failure : Failure)
  | response (response : Response)
  /-- The answer of a bare write buffer. -/
  | buffer (answer : Answer) (pending capacity : Nat)
  /-- A handshake, and the seed after it. -/
  | handshake (outcome : Except TransportFailure Unit) (seed : UInt64)
  | setup (outcome : Except Failure Reached) (lookups : List Bytes)
      (dials : List (IpAddress × UInt16)) (seed : Option UInt64)
  | body (framing : Framing) (isDone : Bool)
  /-- The answer of a reader, and whether nothing more will come. -/
  | reading (answer : Answer) (isDone : Bool)
  | pieces (pieces : List Bytes) (outcome : Except Failure Unit)

namespace Answer

def ofTransport {α : Type} (f : α → Answer) : Except TransportFailure α → Answer
  | .ok a => f a
  | .error failure => refused failure

def ofExchange {α : Type} (f : α → Answer) : Except Failure α → Answer
  | .ok a => f a
  | .error failure => failed failure

end Answer

/-- What a session shows after a step. -/
structure Report where
  answer : Except Complaint Answer
  /-- The connection the step worked on, if there was one. -/
  connection : Option (Kind × Phase)
  activities : List (Nat × Script.Activity)
  /-- What was logged, if the session has a threshold. -/
  log : Option Bytes

end HttpExchange
