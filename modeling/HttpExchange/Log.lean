import HttpExchange.Method
import HttpExchange.Numeral

/-!
# Log lines

A line is put together from parts in a space of 512 bytes. What no longer fits is cut
off, and the line then ends in `...` before its newline, so a shortened line shows.

A journal is the list of entries that a run has made, each at its level; the text of a
journal at a threshold holds the lines of that level and the more severe ones.
-/

namespace HttpExchange

inductive Level
  | error | warn | info | debug | trace
deriving DecidableEq, Repr

namespace Level

def all : List Level := [error, warn, info, debug, trace]

def name : Level → Bytes
  | error => ascii "error"
  | warn => ascii "warn"
  | info => ascii "info"
  | debug => ascii "debug"
  | trace => ascii "trace"

def rank (l : Level) : Nat := all.idxOf l

/-- Names are matched exactly. -/
def ofText? (s : Bytes) : Option Level := all.find? fun l => l.name == s

/-- Whether entries of a level are written at a threshold. -/
def passes (l threshold : Level) : Bool := l.rank ≤ threshold.rank

end Level

/-! ## Lines -/

inductive Part
  | text (s : Bytes)
  | zeroTerminated (s : Bytes)
  | missing
  | byte (b : UInt8)
  | flag (b : Bool)
  | number (n : Int)
  | method (m : Method)
deriving DecidableEq, Repr

/-- The text of a part; a method shows as its place among the methods. -/
def Part.bytes : Part → Bytes
  | text s => s
  | zeroTerminated s => Bytes.untilNul s
  | missing => ascii "(null)"
  | byte b => [b]
  | flag true => ascii "true"
  | flag false => ascii "false"
  | number n => Numeral.signed n
  | method m => Numeral.decimal m.index

structure Line where
  text : Bytes
  truncated : Bool
deriving DecidableEq, Repr

namespace Line

def capacity : Nat := 512

def empty : Line := ⟨[], false⟩

/-- Adds as much of `s` as there is room for. -/
def append (line : Line) (s : Bytes) : Line :=
  let room := capacity - line.text.length
  ⟨line.text ++ s.take room, line.truncated || room < s.length⟩

/-- The finished line: the newline, with the mark of a shortened line before it. A text
that fills the space without being cut gives up its last byte for the newline. -/
def finish (line : Line) : Bytes :=
  let length := line.text.length
  if line.truncated ∧ 4 ≤ length then line.text.take (length - 4) ++ ascii "...\n"
  else if length < capacity then line.text ++ ascii "\n"
  else line.text.take (length - 1) ++ ascii "\n"

def ofParts (parts : List Part) : Line :=
  parts.foldl (fun line part => line.append part.bytes) empty

end Line

/-! ## Journals -/

structure Entry where
  level : Level
  parts : List Part
deriving DecidableEq, Repr

abbrev Journal := List Entry

namespace Entry

def note (level : Level) (texts : List Bytes) : Entry := ⟨level, texts.map .text⟩

def render (e : Entry) : Bytes :=
  (Line.ofParts (.text (ascii "[reqlite ") :: .text e.level.name :: .text (ascii "] ")
    :: e.parts)).finish

end Entry

/-- What is written of a journal at a threshold. -/
def Journal.text (threshold : Level) (journal : Journal) : Bytes :=
  (journal.filter fun e => e.level.passes threshold).flatMap Entry.render

end HttpExchange
