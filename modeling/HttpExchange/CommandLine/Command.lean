import HttpExchange.CommandLine.Options
import HttpExchange.Request
import HttpExchange.Secure

/-!
# Commands

A command is a command line that makes sense: method, URL, options, and what the texts
among the options stand for. Headers, shared key and user are looked at after all options
were taken, in this order.
-/

namespace HttpExchange

namespace CommandLine

/-- A command line that makes sense. -/
structure Command where
  method : Method
  url : Bytes
  options : Options
  headers : List Header
  sharedKey : Option (Bytes × Bytes)
  credentials : Option Credentials
deriving DecidableEq, Repr

/-- A header needs a name before its colon. -/
def header? (line : Bytes) : Except Fault Header :=
  match Bytes.cutAt? Byte.colon line with
  | some (b :: name, value) => .ok ⟨Bytes.trim (b :: name), Bytes.trim value⟩
  | _ => .error (.header line)

/-- An identity and, behind the first colon, a secret in hexadecimal digits. -/
def sharedKey? : Option Bytes → Except Fault (Option (Bytes × Bytes))
  | none => .ok none
  | some text =>
    match Bytes.cutAt? Byte.colon text with
    | none => .error .sharedKey
    | some (identity, digits) =>
      match Numeral.hexBytes? digits with
      | some secret => .ok (some (identity, secret))
      | none => .error .sharedKey

def credentials? : Option Bytes → Except Fault (Option Credentials)
  | none => .ok none
  | some text =>
    match Bytes.cutAt? Byte.colon text with
    | some (user, password) => .ok (some ⟨user, password⟩)
    | none => .error .user

/-- Reads a command line; a word ends at its first NUL. -/
def parse (words : List Bytes) : Except Fault Command :=
  match words.map Bytes.untilNul with
  | method :: url :: rest =>
    match Method.ofText? method with
    | none => .error (.method method)
    | some method => do
      let options ← Options.initial.read rest
      let headers ← options.headerLines.mapM header?
      let sharedKey ← sharedKey? options.sharedKey
      let credentials ← credentials? options.user
      return { method, url, options, headers, sharedKey, credentials }
  | _ => .error .usage

namespace Command

def tlsCapacity : Nat := 16384 + 256

def sendCapacity : Nat := 4096

/-- TLS is set up when a key is given or none is wanted. -/
def secure? (c : Command) : Option SecureConfig :=
  if c.options.sharedKey.isSome ∨ c.options.insecure then
    some ⟨c.options.seed, tlsCapacity, tlsCapacity, c.sharedKey⟩
  else none

def body? (c : Command) : Option Body :=
  c.options.data.map fun data =>
    if c.options.chunked then .ofFragments [data] else .ofBytes data

/-- What the options say about the request. -/
def settings (c : Command) : List Request.Setting :=
  [.headers c.headers]
    ++ (c.options.contentType.map Request.Setting.contentType).toList
    ++ (c.credentials.map Request.Setting.credentials).toList
    ++ (c.body?.map Request.Setting.body).toList

end Command

end CommandLine

end HttpExchange
