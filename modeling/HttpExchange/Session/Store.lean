import HttpExchange.Session.Step

/-!
# The objects of a session

A session holds scripts, memories and named objects. Connections are attached to a script
and a memory by number, so the connections that a client makes one after the other share
the memory of the client. An object remembers what it was made from and goes with it.
-/

namespace HttpExchange

/-- A connection with the numbers of its script and its memory. -/
structure Attachment where
  connection : Connection
  script : Nat
  memory : Nat
deriving DecidableEq, Repr

/-- The objects of a session; `owner` names the object whose connection one belongs to. -/
inductive Object
  | connection (attachment : Attachment)
  | writeBuffer (buffer : WriteBuffer) (script memory : Nat)
  | client (secure : Option SecureConfig) (memory : Nat)
  | handle (handle : Handle) (attachment : Attachment)
  | resource (resource : Resource) (attachment : Attachment)
  | builder (builder : Builder) (owner : Bytes)
  | response (response : Response) (owner : Bytes)
  | reader (reader : BodyReader) (owner : Bytes)

namespace Object

def attachment? : Object → Option Attachment
  | connection a | handle _ a | resource _ a => some a
  | _ => none

def attach (a : Attachment) : Object → Object
  | connection _ => connection a
  | handle h _ => handle h a
  | resource r _ => resource r a
  | other => other

end Object

/-- An object with its name and the names of the objects it was made from. -/
structure Named where
  name : Bytes
  parents : List Bytes
  object : Object

structure Session where
  threshold : Option Level
  scripts : List Script
  memories : List Scratch
  objects : List Named

namespace Session

def start (threshold : Option Level) (scripts : List Script) : Session :=
  ⟨threshold, scripts, [], []⟩

/-! ## Objects -/

def find? (s : Session) (name : Bytes) : Option Object :=
  (s.objects.find? fun x => x.name == name).map Named.object

def add (s : Session) (name : Bytes) (parents : List Bytes) (object : Object) : Session :=
  { s with objects := s.objects ++ [⟨name, parents, object⟩] }

def update (s : Session) (name : Bytes) (f : Named → Named) : Session :=
  { s with objects := s.objects.map fun x => if x.name == name then f x else x }

def put (s : Session) (name : Bytes) (object : Object) : Session :=
  s.update name fun x => { x with object }

def memory (s : Session) (i : Nat) : Scratch := s.memories[i]?.getD .empty

/-- A memory of its own for something new, and its number. -/
def allocate (s : Session) : Nat × Session :=
  (s.memories.length, { s with memories := s.memories ++ [.empty] })

/-- The objects that remain when one goes, with all that was made from it. -/
def without (s : Session) (name : Bytes) : List Named :=
  (s.objects.foldl (fun (gone, kept) x =>
      if gone.contains x.name || x.parents.any gone.contains then (x.name :: gone, kept)
      else (gone, x :: kept))
    ([name], [])).2.reverse

/-! ## Links -/

def linkOf (s : Session) (a : Attachment) : Link Script :=
  ⟨a.connection, s.memory a.memory, s.scripts[a.script]?.getD .empty, []⟩

/-- Script and memory as a stream has left them. -/
def settle (s : Session) (script memory : Nat) (wire : Script) (scratch : Scratch) : Session :=
  { s with scripts := s.scripts.set script wire, memories := s.memories.set memory scratch }

def attachment? (s : Session) (name : Bytes) : Option Attachment :=
  (s.find? name).bind Object.attachment?

/-- The attachment of `name` as its link has left it. -/
def putLink (s : Session) (name : Bytes) (a : Attachment) (l : Link Script) : Session :=
  (s.settle a.script a.memory l.wire l.scratch).update name fun x =>
    { x with object := x.object.attach { a with connection := l.connection } }

end Session

end HttpExchange
