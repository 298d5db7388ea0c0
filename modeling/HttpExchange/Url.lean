import HttpExchange.Url.Path
import HttpExchange.Url.Host

/-!
# URLs

An absolute URL is cut into scheme, host, port and path; the path keeps its query and
the fragment and the user part are dropped. Of several faults the one found first
counts, in the order length, scheme, slashes, missing authority, fragment, query, path,
user, password, port, host; a fault anywhere wins over a scheme that is not served. A file
URL has no authority, and rules of its own for what stands in its place.

The rules, their order and the texts of the faults are those of the URL parser of libcurl 7.88.1
when it lets other schemes through. Another version need not cut every text alike.
-/

namespace HttpExchange

inductive Scheme
  | http | https
deriving DecidableEq, Repr

def Scheme.name : Scheme → Bytes
  | http => ascii "http"
  | https => ascii "https"

def Scheme.defaultPort : Scheme → UInt16
  | http => 80
  | https => 443

structure Url where
  scheme : Scheme
  host : Bytes
  portNumber : UInt16
  path : Bytes
deriving DecidableEq, Repr

namespace Url

/-! ## Parts -/

def isSchemeByte (b : UInt8) : Bool :=
  Byte.isDigit b || Byte.isUpper b || Byte.isLower b || b == 43 || b == Byte.dash || b == Byte.dot

/-- The lower-case scheme and what follows its colon. -/
def cutScheme (s : Bytes) : Except UrlFault (Bytes × Bytes) :=
  match Bytes.cutAt? Byte.colon s with
  | none => .error .scheme
  | some (scheme, rest) =>
    if scheme ≠ [] ∧ scheme.length ≤ 40 ∧ scheme.all isSchemeByte then
      .ok (scheme.map Byte.lower, rest)
    else .error .scheme

/-- One to three slashes stand before the authority. -/
def cutSlashes (s : Bytes) : Except UrlFault Bytes :=
  let slashes := (s.takeWhile (· == Byte.slash)).length
  if 1 ≤ slashes ∧ slashes ≤ 3 then .ok (s.drop slashes) else .error .slashes

def endsAuthority (b : UInt8) : Bool := b == Byte.slash || b == Byte.question || b == Byte.hash

/-- Path and query, once the fragment is dropped and nothing in them is junk. A path of
one byte gives way to the root. -/
def readTarget (s : Bytes) : Except UrlFault Bytes :=
  let fragment := s.dropWhile (· != Byte.hash)
  let rest := s.takeWhile (· != Byte.hash)
  let query := rest.dropWhile (· != Byte.question)
  let path := rest.takeWhile (· != Byte.question)
  if fragment.any Byte.isJunk then .error .fragment
  else if query.any Byte.isJunk then .error .query
  else if path.length ≤ 1 then .ok (Byte.slash :: query)
  else if path.any Byte.isJunk then .error .path
  else .ok (UrlPath.normalize path ++ query)

/-- The authority behind the user part, which ends at the first `@`. -/
def dropUser (authority : Bytes) : Except UrlFault Bytes :=
  match Bytes.cutAt? Byte.atSign authority with
  | none => .ok authority
  | some (login, rest) =>
    let user := login.takeWhile (· != Byte.colon)
    let password := login.dropWhile (· != Byte.colon)
    if user.any Byte.isJunk then .error .user
    else if password.any Byte.isJunk then .error .password
    else .ok rest

/-- The port after its colon; none is given when nothing stands there. -/
def readPort (scheme : Option Scheme) (s : Bytes) : Except UrlFault UInt16 :=
  match s with
  | [] => .ok ((scheme.map Scheme.defaultPort).getD 0)
  | _ =>
    match Numeral.decimal? 65536 s with
    | some n => .ok (UInt16.ofNat n)
    | none => .error .port

/-- Junk is looked for in the host as it was written, before escapes are undone. -/
def readHost (host : Bytes) (read : Bytes → Except UrlFault Bytes) : Except UrlFault Bytes :=
  if host.any Byte.isJunk then .error .host else read host

/-- Host and port. A bracket opens an address, whose closing bracket only a colon may follow. -/
def readHostPort (scheme : Option Scheme) (s : Bytes) : Except UrlFault (Bytes × UInt16) :=
  match s with
  | 91 :: inner =>
    match Bytes.cutAt? Byte.closeBracket inner with
    | none => .error .colonAddress
    | some (address, after) => do
      let port ← match after with
        | [] => readPort scheme []
        | b :: digits => if b = Byte.colon then readPort scheme digits else .error .port
      return (← readHost address UrlHost.bracketed?, port)
  | _ => do
    let port ← match Bytes.cutAt? Byte.colon s with
      | none => readPort scheme []
      | some (_, digits) => readPort scheme digits
    return (← readHost (Bytes.before Byte.colon s) UrlHost.plain?, port)

/-! ## Files -/

def fileScheme : Bytes := ascii "file"

/-- A letter and a colon or a bar, as a whole or before a slash. -/
def startsWithDrive : Bytes → Bool
  | letter :: mark :: rest =>
    (Byte.isUpper letter || Byte.isLower letter) && (mark == Byte.colon || mark == Byte.bar) &&
      (rest == [] || rest.head? == some Byte.slash || rest.head? == some Byte.backslash)
  | _ => false

/-- The hosts whose files are the files at hand. -/
def localHosts : List Bytes := [ascii "localhost", ascii "127.0.0.1"]

/-- The path behind the host that two slashes announced. No host at all is a local one. -/
def dropLocalHost (s : Bytes) : Except UrlFault Bytes :=
  let host := (Bytes.before Byte.slash s).map Byte.lower
  if s.head? = some Byte.slash ∨ startsWithDrive s then .ok s
  else if host ∈ localHosts ∧ host.length < s.length then .ok (s.drop host.length)
  else .error .file

/-- What follows the scheme and its host: at least two bytes, and never a drive. -/
def cutFile (s : Bytes) : Except UrlFault Bytes := do
  if s.length ≤ 1 then throw .file
  let path ← if s.take 2 = [Byte.slash, Byte.slash] then dropLocalHost (s.drop 2) else .ok s
  if startsWithDrive path ∨ (path.head? = some Byte.slash ∧ startsWithDrive path.tail) then
    throw .file
  return path

/-! ## Reading -/

def schemeOf? (name : Bytes) : Option Scheme :=
  if name = Scheme.name .http then some .http
  else if name = Scheme.name .https then some .https
  else none

structure Parts where
  scheme : Bytes
  host : Bytes
  portNumber : UInt16
  path : Bytes
deriving DecidableEq, Repr

def lengthLimit : Nat := 8000000

/-- The parts of a URL of any scheme. A file URL has neither host nor port. -/
def parts (s : Bytes) : Except UrlFault Parts := do
  if lengthLimit < s.length then throw .length
  let (scheme, rest) ← cutScheme s
  if scheme = fileScheme then
    return ⟨scheme, [], 0, ← readTarget (← cutFile rest)⟩
  let rest ← cutSlashes rest
  let authority := rest.takeWhile fun b => !endsAuthority b
  if authority = [] then throw .noHost
  let path ← readTarget (rest.dropWhile fun b => !endsAuthority b)
  let (host, portNumber) ← readHostPort (schemeOf? scheme) (← dropUser authority)
  return ⟨scheme, host, portNumber, path⟩

/-- Only http and https are served. A URL ends at its first NUL; a message shows all of it. -/
def parse (text : Bytes) : Except Failure Url :=
  match parts (Bytes.untilNul text) with
  | .error fault => .error (.badUrl text fault)
  | .ok p =>
    match schemeOf? p.scheme with
    | none => .error (.unknownScheme p.scheme)
    | some scheme => .ok ⟨scheme, p.host, p.portNumber, p.path⟩

end Url

end HttpExchange
