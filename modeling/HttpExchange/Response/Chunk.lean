import HttpExchange.Failure

/-!
# Chunk framing, byte by byte

Between the data of its chunks a chunked body holds size lines, line ends and trailer
lines. A scanner for each of them takes one byte at a time and tells whether it wants
more, has seen its end, or has met a fault.

A size line is hexadecimal digits, then blanks, then an extension behind a semicolon,
and CRLF at any point. Its value is that of the digits, which must stay below 2 ^ 64. How many
digits there are is counted in a signed number of 32 bits. It wraps around behind 2 ^ 31 - 1, so
a line of 2 ^ 31 or more digits may look like one without any.
-/

namespace HttpExchange

/-- What a scanner says to a byte. -/
inductive Verdict (s α : Type)
  | more (state : s)
  | done (value : α)
  | fault (fault : ChunkFault)

/-! ## Size lines -/

/-- Where a scanner stands in a size line, with the number of digits so far and the size that
they stand for. -/
inductive SizeLine
  | digits (count : Int32) (size : UInt64)
  | blanks (count : Int32) (size : UInt64)
  | extension (count : Int32) (size : UInt64)
  /-- Behind the CR. -/
  | ending (count : Int32) (size : UInt64)
deriving DecidableEq, Repr

namespace SizeLine

def start : SizeLine := digits 0 0

/-- One more digit. With a bit in the upper four places of the size there is no room for it. -/
def digit (count : Int32) (size : UInt64) (b : UInt8) : Verdict SizeLine Nat :=
  match Byte.hexValue? b with
  | none => .fault .sizeCharacter
  | some d =>
    if (0xFFFFFFFFFFFFFFFF : UInt64) >>> 4 < size then .fault .sizeOverflow
    else .more (digits (count + 1) (size <<< 4 ||| d.toUInt64))

/-- A byte before any extension: the end of the line, or what may follow digits if some were
counted, or something else. -/
def beforeExtension (count : Int32) (size : UInt64) (b : UInt8) (other : Verdict SizeLine Nat) :
    Verdict SizeLine Nat :=
  if b = Byte.cr then .more (ending count size)
  else if b = Byte.semicolon ∧ 0 < count then .more (extension count size)
  else if Byte.isBlank b ∧ 0 < count then .more (blanks count size)
  else other

def afterCr (count : Int32) (size : UInt64) (b : UInt8) : Verdict SizeLine Nat :=
  if b = Byte.lf then
    if count = 0 then .fault .sizeMissing else .done size.toNat
  else .fault .sizeEnd

def step (state : SizeLine) (b : UInt8) : Verdict SizeLine Nat :=
  match state with
  | digits count size => beforeExtension count size b (digit count size b)
  | blanks count size => beforeExtension count size b (.fault .sizeCharacter)
  | extension count size =>
    if b = Byte.cr then .more (ending count size) else .more (extension count size)
  | ending count size => afterCr count size b

end SizeLine

/-! ## The end of a chunk's data -/

inductive DataEnd
  | wantsCr
  | wantsLf
deriving DecidableEq, Repr

namespace DataEnd

def step (state : DataEnd) (b : UInt8) : Verdict DataEnd Unit :=
  match state with
  | wantsCr => if b = Byte.cr then .more wantsLf else .fault .dataEnd
  | wantsLf => if b = Byte.lf then .done () else .fault .dataEnd

end DataEnd

/-! ## Trailers -/

/-- Where a scanner stands in the trailer lines, of which the empty one is the last. -/
inductive Trailers
  | lineStart
  | inLine
  /-- Behind the CR of a line. -/
  | ending (lineIsEmpty : Bool)
deriving DecidableEq, Repr

namespace Trailers

def step (state : Trailers) (b : UInt8) : Verdict Trailers Unit :=
  match state with
  | lineStart => if b = Byte.cr then .more (ending true) else .more inLine
  | inLine => if b = Byte.cr then .more (ending false) else .more inLine
  | ending lineIsEmpty =>
    if b = Byte.lf then if lineIsEmpty then .done () else .more lineStart
    else .fault .trailerEnd

end Trailers

end HttpExchange
