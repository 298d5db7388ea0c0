import HttpExchange.Session.Store

/-!
# Sessions

A session runs steps on its objects one by one.

* `Session.perform` does a step or complains.
* `Session.report` shows a step: the answer, the connection, what scripts have seen and
  what was logged.
-/

namespace HttpExchange

namespace Session

/-! ## Performing a step -/

/-- What a step came to, the object whose connection it worked on, and what was logged. -/
structure Outcome where
  session : Session
  answer : Answer
  focus : Option Bytes
  journal : Journal

def quiet (s : Session) (answer : Answer) : Outcome := ⟨s, answer, none, []⟩

/-- Works on the connection of an object. -/
def onLink (s : Session) (name : Bytes) (f : Link Script → Answer × Link Script) :
    Except Complaint Outcome :=
  match s.attachment? name with
  | none => .error .noConnection
  | some a =>
    let (answer, l) := f (s.linkOf a)
    .ok ⟨s.putLink name a l, answer, some name, l.journal⟩

/-- Gets a response on the connection of `owner` and names it. -/
def respond (s : Session) (owner name : Bytes) (parents : List Bytes)
    (f : Link Script → Except Failure Response × Link Script) : Except Complaint Outcome :=
  match s.attachment? owner with
  | none => .error .noConnection
  | some a =>
    let (outcome, l) := f (s.linkOf a)
    let s := s.putLink owner a l
    match outcome with
    | .error failure => .ok ⟨s, .failed failure, some owner, l.journal⟩
    | .ok response =>
      .ok ⟨s.add name (parents ++ [owner]) (.response response owner), .response response,
        some owner, l.journal⟩

def script? (s : Session) (i : Nat) : Except Complaint Script :=
  match s.scripts[i]? with
  | none => .error .noObject
  | some script => .ok script

def setScript (s : Session) (i : Nat) (script : Script) : Session :=
  { s with scripts := s.scripts.set i script }

def connect (s : Session) (name : Bytes) (i : Nat) (wire : Script) (making : Making) : Outcome :=
  let (memory, s) := s.allocate
  let made (connection : Connection) (s : Session) (answer : Answer) (journal : Journal) : Outcome :=
    ⟨s.add name [] (.connection ⟨connection, i, memory⟩), answer, some name, journal⟩
  match making with
  | .plain => made .plain s .done []
  | .buffered capacity => made (.buffered capacity) s .done []
  | .secured server config =>
    let opening := SecureSession.start wire server config
    let s := s.setScript i opening.wire
    match opening.session with
    | .error failure => ⟨s, .handshake (.error failure) opening.config.seed, none, opening.journal⟩
    | .ok session =>
      made (.secured session) s (.handshake (.ok ()) opening.config.seed) opening.journal

def intoBuffered (s : Session) (target : Bytes) (capacity : Nat) : Except Complaint Outcome :=
  match s.attachment? target with
  | none => .error .noConnection
  | some a =>
    let (fresh, s) := s.allocate
    -- A form that coalesces already keeps the memory it has.
    let memory := if a.connection.kind = .plain then fresh else a.memory
    let a := { a with connection := a.connection.intoBuffered capacity, memory }
    .ok ⟨s.update target fun x => { x with object := x.object.attach a }, .done, some target, []⟩

/-! ### Streams -/

def streamOnLink (step : StreamStep) (l : Link Script) : Answer × Link Script :=
  match step with
  | .write data =>
    let (outcome, l) := l.write data
    (.ofTransport .count outcome, l)
  | .writeAll data =>
    let (outcome, l) := l.writeAll data
    (.ofTransport (fun _ => .ok) outcome, l)
  | .read n =>
    let (outcome, l) := l.read n
    (.ofTransport .data outcome, l)
  | .flush =>
    let (outcome, l) := l.flush
    (.ofTransport (fun _ => .ok) outcome, l)
  | .close => (.done, l.close)

def streamOnBuffer (step : StreamStep) (o : WriteBuffer.Over Script) :
    Answer × WriteBuffer.Over Script :=
  match step with
  | .write data =>
    let (outcome, o) := o.write data
    (.ofTransport .count outcome, o)
  | .writeAll data =>
    let (outcome, o) := writeAll WriteBuffer.Over.write o data
    (.ofTransport (fun _ => .ok) outcome, o)
  | .read n =>
    let (outcome, o) := o.read n
    (.ofTransport .data outcome, o)
  | .flush =>
    let (outcome, o) := o.flush
    (.ofTransport (fun _ => .ok) outcome, o)
  | .close => (.done, o.close)

def stream (s : Session) (target : Bytes) (step : StreamStep) : Except Complaint Outcome :=
  match s.find? target with
  | some (.writeBuffer buffer script memory) =>
    let wire := s.scripts[script]?.getD .empty
    let (answer, o) := streamOnBuffer step ⟨buffer, s.memory memory, wire⟩
    let s := s.settle script memory o.wire o.scratch
    .ok ((s.put target (.writeBuffer o.buffer script memory)).quiet
      (.buffer answer o.buffer.pending o.buffer.capacity))
  | _ => s.onLink target (streamOnLink step)

/-! ### Exchanges -/

/-- Sends on a connection or a resource the request that is given, and on a handle or a
builder their own. -/
def send (s : Session) (target name : Bytes) (request : Request) (capacity : Nat) :
    Except Complaint Outcome :=
  match s.find? target with
  | some (.connection _) => s.respond target name [] fun l => l.send request capacity
  | some (.resource resource _) =>
    s.respond target name [] fun l => resource.send l request capacity
  | some (.handle handle _) => do
    let outcome ← s.respond target name [] fun l =>
      let (outcome, _, l) := handle.send l capacity
      (outcome, l)
    let sent := { handle with pending := none }
    return { outcome with session := outcome.session.update target fun x => match x.object with
      | .handle _ a => { x with object := .handle sent a }
      | _ => x }
  | some (.builder builder owner) => do
    let outcome ← s.respond owner name [target] fun l =>
      let (outcome, _, l) := builder.send l capacity
      (outcome, l)
    return { outcome with
      session := outcome.session.put target (.builder { builder with pending := none } owner) }
  | _ => .error .noConnection

/-! ### Clients -/

def reach (s : Session) (client name : Bytes) (i : Nat) (errand : Errand) (text : Bytes)
    (weather : Weather) : Except Complaint Outcome :=
  match s.find? client, s.scripts[i]? with
  | some (.client secure memory), some wire =>
    let (outcome, setup) :=
      Client.reach ⟨secure, s.memory memory⟩ (weather.network wire) text
    let s := s.settle i memory (setup.wire.getD wire) setup.client.scratch
    let s := s.put client (.client setup.client.secure memory)
    let answer (reached : Except Failure Reached) : Answer :=
      .setup reached setup.lookups setup.dials (setup.client.secure.map SecureConfig.seed)
    match outcome, setup.connection with
    | .ok url, .ok connection =>
      let (fresh, s) := s.allocate
      let memory := if connection.holdsLease then memory else fresh
      let a : Attachment := ⟨connection, i, memory⟩
      match errand with
      | .request method =>
        .ok ⟨s.add name [] (.handle (.make method url) a), answer (.ok (.request url)), some name,
          setup.journal⟩
      | .resource =>
        .ok ⟨s.add name [] (.resource ⟨url⟩ a), answer (.ok (.resource url.host url.path)),
          some name, setup.journal⟩
    | .error failure, _ | .ok _, .error failure =>
      .ok ⟨s, answer (.error failure), none, setup.journal⟩
  | _, _ => .error .noObject

def builder (s : Session) (resource name : Bytes) (method : Method) (path : Bytes) :
    Except Complaint Outcome :=
  match s.find? resource with
  | some (.resource r _) =>
    .ok ⟨s.add name [resource] (.builder (r.request method path) resource), .done, some resource, []⟩
  | _ => .error .noObject

def set (s : Session) (target : Bytes) (settings : List Request.Setting) :
    Except Complaint Outcome :=
  match s.find? target with
  | some (.handle handle a) => .ok ((s.put target (.handle (handle.apply settings) a)).quiet .done)
  | some (.builder builder owner) =>
    .ok ((s.put target (.builder (builder.apply settings) owner)).quiet .done)
  | _ => .error .noObject

/-! ### Responses and readers -/

def response? (s : Session) (name : Bytes) : Except Complaint (Response × Bytes) :=
  match s.find? name with
  | some (.response response owner) => .ok (response, owner)
  | _ => .error .noObject

def move (s : Session) (name target : Bytes) : Except Complaint Outcome := do
  let (response, owner) ← s.response? name
  let (moved, left) := response.move
  let s := s.put name (.response left owner)
  return ⟨s.add target [owner] (.response moved owner), .response moved, some owner, []⟩

def moveOnto (s : Session) (name other : Bytes) : Except Complaint Outcome := do
  let (response, owner) ← s.response? name
  let _ ← s.response? other
  let (moved, left) := response.moveOnto (name == other)
  let s := s.put name (.response left owner)
  let s :=
    if name = other then s
    else s.update other fun x => { x with parents := [owner], object := .response moved owner }
  return ⟨s, .response moved, some owner, []⟩

def body (s : Session) (name target : Bytes) : Except Complaint Outcome := do
  let (response, owner) ← s.response? name
  let (outcome, left) := response.body
  let s := s.put name (.response left owner)
  match outcome with
  | .error failure => return ⟨s, .failed failure, some owner, []⟩
  | .ok reader =>
    return ⟨s.add target [name, owner] (.reader reader owner), .body reader.framing reader.isDone,
      some owner, []⟩

def readerStep (step : ReaderStep) (x : Reading Script) : Answer × Reading Script :=
  match step with
  | .read n =>
    let (outcome, x) := x.read n
    (.ofExchange .data outcome, x)
  | .readAll n =>
    let (pieces, outcome, x) := x.readAll n
    (.pieces pieces outcome, x)
  | .readToEnd =>
    let (outcome, x) := x.readToEnd
    (.ofExchange .data outcome, x)
  | .discard =>
    let (outcome, x) := x.discard
    (.ofExchange .count outcome, x)

def reader (s : Session) (target : Bytes) (step : ReaderStep) : Except Complaint Outcome :=
  match s.find? target with
  | some (.reader reader owner) =>
    match s.attachment? owner with
    | none => .error .noObject
    | some a =>
      let (answer, x) := readerStep step ⟨reader, s.linkOf a⟩
      let s := (s.putLink owner a x.link).put target (.reader x.reader owner)
      .ok ⟨s, .reading answer x.reader.isDone, some owner, x.link.journal⟩
  | _ => .error .noObject

/-- A connection that goes gives back the memory that was lent to it. -/
def drop (s : Session) (target : Bytes) : Except Complaint Outcome :=
  match s.find? target with
  | none => .error .noObject
  | some object =>
    let s := match object.attachment? with
      | some a => s.putLink target a (s.linkOf a).releaseLease
      | none => s
    .ok ({ s with objects := s.without target }.quiet .done)

/-- The name that a step gives to what it makes. -/
def newName? : Step → Option Bytes
  | .connection name _ _ | .writeBuffer name _ _ | .readResponse _ name _ _ | .send _ name _ _
  | .client name _ | .reach _ name _ _ _ _ | .builder _ name _ _ | .move _ name
  | .body _ name => some name
  | _ => none

def nameIsTaken (s : Session) (step : Step) : Bool :=
  (newName? step).any fun name => (s.find? name).isSome

def perform (s : Session) (step : Step) : Except Complaint Outcome :=
  if s.nameIsTaken step then .error .nameInUse
  else match step with
    | .push i data => do
      let script ← s.script? i
      return (s.setScript i { script with inbound := script.inbound ++ [data] }).quiet .done
    | .adjust i adjustment => do
      let script ← s.script? i
      return (s.setScript i (adjustment.apply script)).quiet .done
    | .connection name i making => do
      let wire ← s.script? i
      return s.connect name i wire making
    | .writeBuffer name i capacity => do
      let _ ← s.script? i
      let (memory, s) := s.allocate
      return (s.add name [] (.writeBuffer (.empty capacity) i memory)).quiet .done
    | .intoBuffered target capacity => s.intoBuffered target capacity
    | .stream target step => s.stream target step
    | .ensure target => s.onLink target fun l =>
      (.ofExchange (fun _ => .ok) l.connection.ensureReusable, l)
    | .writeRequest target request => s.onLink target fun l =>
      let (outcome, l) := request.write l
      (.ofExchange (fun _ => .ok) outcome, l)
    | .readResponse target name method capacity =>
      s.respond target name [] fun l => Response.read l method capacity
    | .send target name request capacity => s.send target name request capacity
    | .client name secure =>
      let (memory, s) := s.allocate
      .ok ((s.add name [] (.client secure memory)).quiet .done)
    | .reach client name i errand text weather => s.reach client name i errand text weather
    | .builder resource name method path => s.builder resource name method path
    | .set target settings => s.set target settings
    | .lookup name header => do
      let (response, _) ← s.response? name
      return s.quiet (.value (response.block.find? header))
    | .inspect name => do
      let (response, _) ← s.response? name
      return s.quiet (.response response)
    | .move name target => s.move name target
    | .moveOnto name other => s.moveOnto name other
    | .body name target => s.body name target
    | .reader target step => s.reader target step
    | .drop target => s.drop target

/-! ## Reports -/

def activities (before after : List Script) : List (Nat × Script.Activity) :=
  ((before.zip after).zipIdx).filterMap fun ((b, a), i) => (Script.activity? b a).map fun x => (i, x)

/-- The connection of an object, as it is shown. -/
def shown (s : Session) (name : Bytes) : Option (Kind × Phase) :=
  (s.attachment? name).map fun a => (a.connection.kind, a.connection.phase)

def report (s : Session) (step : Step) : Report × Session :=
  match s.perform step with
  | .error complaint =>
    (⟨.error complaint, none, [], s.threshold.map fun _ => []⟩, s)
  | .ok outcome =>
    (⟨.ok outcome.answer, outcome.focus.bind outcome.session.shown,
      activities s.scripts outcome.session.scripts,
      s.threshold.map fun level => Journal.text level outcome.journal⟩, outcome.session)

def run (s : Session) : List Step → List Report
  | [] => []
  | step :: steps =>
    let (report, s) := s.report step
    report :: s.run steps

end Session

end HttpExchange
