import HttpExchange.Client
import HttpExchange.Client.Handle
import HttpExchange.Client.Resource
import HttpExchange.CommandLine.Command

/-!
# The command line

`<method> <url> [options]` sends one request. The head of the response goes to the error
output and its body to the standard output, as it arrives.

A run succeeds exactly when the body was read to its end and the status is one of success
or redirection. `run` takes it all at once, and `Stage.step` one stage after the other: the words
are read, a connection is set up, the request is sent, the response is shown.
-/

namespace HttpExchange

namespace CommandLine

/-! ## Messages -/

def usage (program : Bytes) : Bytes :=
  ascii "HTTP/1.1 client (C++23)\n\nUsage: " ++ program ++ ascii " <method> <url> [options]\n\n"
    ++ ascii "Options:\n"
    ++ ascii "  --header \"Name: Value\"       Add a request header (repeatable)\n"
    ++ ascii "  --data <text>                Request body\n"
    ++ ascii "  --chunked                    Send the body with chunked transfer coding\n"
    ++ ascii "  --content-type <mime>        Content-Type of the body\n"
    ++ ascii "  --user <user:password>       Basic authentication\n"
    ++ ascii "  --buffered                   Coalesce writes on plain connections\n"
    ++ ascii "  --psk <identity:hexkey>      TLS pre-shared key\n"
    ++ ascii "  --insecure                   TLS without peer verification\n"
    ++ ascii "  --seed <n>                   TLS random seed\n"
    ++ ascii "  --timeout <seconds>          Socket timeout\n"
    ++ ascii "  --rx-buffer <bytes>          Receive buffer size\n"
    ++ ascii "  --path <p>                   Send through a resource scope rooted at <url>\n\n"
    ++ ascii "Environment:\n"
    ++ ascii "  REQLITE_LOG=error|warn|info|debug|trace\n"

/-- A complaint on the error output. -/
def complaint (message : Bytes) : Bytes := ascii "Error: " ++ message ++ ascii "\n"

def Fault.text (program : Bytes) : Fault → Bytes
  | usage => CommandLine.usage program
  | method text => complaint (ascii "Unknown method: " ++ text)
  | mediaType text => complaint (ascii "Unknown content type: " ++ text)
  | seed => complaint (ascii "Invalid --seed")
  | timeout => complaint (ascii "Invalid --timeout")
  | receiveCapacity => complaint (ascii "Invalid --rx-buffer")
  | option text => complaint (ascii "Unknown option: " ++ text)
  | header line => complaint (ascii "Invalid header: " ++ line)
  | sharedKey => complaint (ascii "Invalid --psk, expected identity:hexkey")
  | user => complaint (ascii "Invalid --user, expected user:password")

/-- The head of a response, as it is shown. -/
def headText (r : Response) : Bytes :=
  ascii "HTTP/1.1 " ++ Numeral.decimal r.status.code.toNat ++ ascii " " ++ r.reason ++ ascii "\n"
    ++ r.block.headers.flatMap (fun h => h.name ++ ascii ": " ++ h.value ++ ascii "\n")
    ++ ascii "\n"

/-! ## Running -/

/-- What a run has shown and done. -/
structure Outcome (σ : Type) where
  succeeded : Bool
  standardOutput : Bytes
  errorOutput : Bytes
  /-- The transport at the end, if one was dialled. -/
  wire : Option σ
  lookups : List Bytes
  dials : List (IpAddress × UInt16)
  /-- The timeout for the network, once the command line made sense. -/
  timeout : Option Int
  journal : Journal

/-- What became of an exchange on a link. -/
structure Exchange (σ : Type) where
  link : Link σ
  succeeded : Bool
  standardOutput : Bytes
  errorOutput : Bytes

variable {σ : Type}

namespace Outcome

def exitCode (o : Outcome σ) : UInt32 := if o.succeeded then 0 else 1

/-- Of a run that has not come to a connection. -/
def blank : Outcome σ := ⟨false, [], [], none, [], [], none, []⟩

/-- Of a run that has tried to set a connection up. -/
def reached (c : Command) (setup : Client.Setup σ) : Outcome σ :=
  ⟨false, [], [], setup.wire, setup.lookups, setup.dials, some c.options.timeout, setup.journal⟩

/-- What an exchange adds to it. -/
def conclude (base : Outcome σ) (done : Exchange σ) : Outcome σ :=
  { base with
    succeeded := done.succeeded
    standardOutput := done.standardOutput
    errorOutput := done.errorOutput
    wire := some done.link.wire
    journal := base.journal ++ done.link.journal }

end Outcome

variable [SecureTransport σ]

def readSize : Nat := 4096

def failed (l : Link σ) (failure : Failure) : Exchange σ := ⟨l, false, [], complaint failure.message⟩

/-- Shows a response and reads its body. -/
def finish (l : Link σ) (r : Response) : Exchange σ :=
  match r.body with
  | (.error failure, _) => { failed l failure with errorOutput := headText r ++ complaint failure.message }
  | (.ok reader, _) =>
    match Reading.readAll ⟨reader, l⟩ readSize with
    | (pieces, .error failure, x) =>
      ⟨x.link, false, pieces.flatten, headText r ++ complaint failure.message⟩
    | (pieces, .ok (), x) =>
      ⟨x.link, r.status.isSuccess || r.status.isRedirection, pieces.flatten, headText r⟩

/-- Sends the request for a URL, below its path when a path is given on the command line. -/
def submit (c : Command) (url : Url) (l : Link σ) : Except Failure Response × Link σ :=
  match c.options.path with
  | none =>
    let (outcome, _, l) :=
      ((Handle.make c.method url).apply c.settings).send l c.options.receiveCapacity
    (outcome, l)
  | some path =>
    let (outcome, _, l) :=
      ((Resource.request ⟨url⟩ c.method path).apply c.settings).send l c.options.receiveCapacity
    (outcome, l)

def exchange (c : Command) (url : Url) (l : Link σ) : Exchange σ :=
  match submit c url l with
  | (.error failure, l) => failed l failure
  | (.ok response, l) => finish l response

/-- The link of a connection that was set up; a bare one may coalesce from now on. -/
def linkOf (c : Command) (scratch : Scratch) (connection : Connection) (wire : σ) : Link σ :=
  ⟨if c.options.buffered then connection.intoBuffered Command.sendCapacity else connection,
    if connection.holdsLease then scratch else .empty, wire, []⟩

def runCommand (c : Command) (network : Network σ) : Outcome σ :=
  let (reached, setup) := Client.reach ⟨c.secure?, .empty⟩ network c.url
  let base := Outcome.reached c setup
  match reached, setup.connection, setup.wire with
  | .ok url, .ok connection, some wire =>
    base.conclude (exchange c url (linkOf c setup.client.scratch connection wire))
  | .error failure, _, _ => { base with errorOutput := complaint failure.message }
  | .ok _, .error failure, _ => { base with errorOutput := complaint failure.message }
  | .ok _, .ok _, none => base

/-- Runs the words after the name of the program. -/
def run (program : Bytes) (words : List Bytes) (network : Network σ) : Outcome σ :=
  match parse words with
  | .error fault => { Outcome.blank with errorOutput := fault.text program }
  | .ok command => runCommand command network

/-! ## Stage by stage -/

/-- Where a run stands, with what it has come to so far. -/
inductive Stage (σ : Type)
  | start (words : List Bytes)
  | parsing (words : List Bytes)
  | connecting (c : Command)
  | sending (c : Command) (url : Url) (base : Outcome σ) (l : Link σ)
  | reading (base : Outcome σ) (r : Response) (l : Link σ)
  | failing (base : Outcome σ) (text : Bytes)
  | done (o : Outcome σ)

namespace Stage

/-- From a setup on, a run sends its request or fails. -/
def afterReach (c : Command) : Except Failure Url × Client.Setup σ → Stage σ
  | (.error failure, setup) => .failing (.reached c setup) (complaint failure.message)
  | (.ok url, setup) =>
    match setup.connection, setup.wire with
    | .ok connection, some wire =>
      .sending c url (.reached c setup) (linkOf c setup.client.scratch connection wire)
    | .error failure, _ => .failing (.reached c setup) (complaint failure.message)
    | .ok _, none => .done (.reached c setup)

/-- The next stage. The last one is never left. -/
def step (program : Bytes) (network : Network σ) : Stage σ → Stage σ
  | start words =>
    if words.length < 2 then .done { Outcome.blank with errorOutput := usage program }
    else .parsing words
  | parsing words =>
    match parse words with
    | .error fault => .failing .blank (fault.text program)
    | .ok c => .connecting c
  | connecting c => afterReach c (Client.reach ⟨c.secure?, .empty⟩ network c.url)
  | sending c url base l =>
    match submit c url l with
    | (.error failure, l) =>
      .failing (base.conclude ⟨l, false, [], []⟩) (complaint failure.message)
    | (.ok r, l) => .reading base r l
  | reading base r l => .done (base.conclude (finish l r))
  | failing base text => .done { base with errorOutput := text }
  | done o => .done o

end Stage

end CommandLine

end HttpExchange
