import HttpExchange.Bytes

/-!
# Media types

The content types a request can declare, and the reading of a `Content-Type` value:
parameters after `;` do not count, nor does the case of letters.
-/

namespace HttpExchange

inductive MediaType
  | textPlain | textHtml | textCss | textCsv
  | json | cbor | octetStream | formUrlencoded | formData
deriving DecidableEq, Repr

namespace MediaType

def all : List MediaType :=
  [textPlain, textHtml, textCss, textCsv, json, cbor, octetStream, formUrlencoded, formData]

def name : MediaType → Bytes
  | textPlain => ascii "text/plain"
  | textHtml => ascii "text/html"
  | textCss => ascii "text/css"
  | textCsv => ascii "text/csv"
  | json => ascii "application/json"
  | cbor => ascii "application/cbor"
  | octetStream => ascii "application/octet-stream"
  | formUrlencoded => ascii "application/x-www-form-urlencoded"
  | formData => ascii "multipart/form-data"

/-- The name at a place of `all`; that of plain octets stands in past its end. -/
def nameAt (n : Nat) : Bytes := (all[n]?.getD octetStream).name

/-- The media type a header value names. -/
def ofText? (value : Bytes) : Option MediaType :=
  let essence := Bytes.trim (Bytes.before Byte.semicolon value)
  all.find? fun t => Bytes.equalsIgnoringCase essence t.name

end MediaType

end HttpExchange
