import HttpExchange.Bytes
import HttpExchange.Failure

/-!
# Header lines

A header block is the text between a start line and the empty line, each header on a
line of its own. It is read twice: `fault?` decides whether a response with that block
is accepted, and a cursor goes over what it says, skipping any line without a colon.

* A cursor cuts the lines off one at a time, as it is moved on. It is at the end, or else it
  shows a header, and its place is told by what lies behind it.
* `headers`, `count` and `find?` are loops with a cursor.
-/

namespace HttpExchange

structure Header where
  name : Bytes
  value : Bytes
deriving DecidableEq, Repr

structure HeaderBlock where
  raw : Bytes
deriving DecidableEq, Repr

namespace Header

/-- A line is cut at its first colon; blanks around both halves do not count. -/
def ofLine? (line : Bytes) : Option Header :=
  (Bytes.cutAt? Byte.colon line).map fun (name, value) => ⟨Bytes.trim name, Bytes.trim value⟩

/-- What is wrong with a line of a response head, if anything. -/
def lineFault? (line : Bytes) : Option HeaderFault :=
  match line with
  | [] => some .folded
  | b :: _ =>
    if Byte.isBlank b then some .folded
    else match Bytes.cutAt? Byte.colon line with
      | none => some .noName
      | some (name, _) =>
        if name = [] then some .noName
        else if name.any Byte.isBlank then some .blankInName
        else none

end Header

/-! ## Cursors -/

/-- A place in a block. At the end it still holds the header that it showed last. -/
structure Cursor where
  rest : Bytes
  current : Header
  done : Bool
deriving DecidableEq, Repr

namespace Cursor

/-- The end of every block. -/
def finish : Cursor := ⟨[], ⟨[], []⟩, true⟩

/-- Of one block, two cursors are at the same place. -/
def sameAs (c d : Cursor) : Bool :=
  c.done == d.done && (c.done || c.rest.length == d.rest.length)

/-- To the next line with a colon, or to the end. -/
def advance (c : Cursor) : Cursor :=
  if c.rest = [] then { c with done := true }
  else match Header.ofLine? (Bytes.nextLine c.rest).1 with
    | some header => ⟨(Bytes.nextLine c.rest).2, header, false⟩
    | none => advance { c with rest := (Bytes.nextLine c.rest).2 }
termination_by c.rest.length
decreasing_by exact Bytes.length_nextLine ‹_›

/-- The cursor before it is moved on, and after. -/
def post (c : Cursor) : Cursor × Cursor := (c, c.advance)

/-- How far it is to the end. -/
def distance (c : Cursor) : Nat := c.rest.length + if c.done then 0 else 1

theorem distance_advance_le (c : Cursor) : c.advance.distance ≤ c.rest.length := by
  fun_induction advance c with
  | case1 c h => simp [distance, h]
  | case2 c h header hof => exact Bytes.length_nextLine h
  | case3 c h hof ih => exact Nat.le_trans ih (Nat.le_of_lt (Bytes.length_nextLine h))

/-- Only the end is at the end. -/
theorem sameAs_finish (c : Cursor) : c.sameAs finish = c.done := by
  cases h : c.done <;> simp [sameAs, finish, h]

/-- What is shown from a place to the end. -/
def walk (c : Cursor) : List Header :=
  if c.sameAs finish then [] else c.current :: c.advance.walk
termination_by c.distance
decreasing_by
  have hlive : c.done = false := by simpa [sameAs_finish] using ‹¬ c.sameAs finish = true›
  have := c.distance_advance_le
  simp only [distance, hlive, Bool.false_eq_true, if_false] at this ⊢
  omega

end Cursor

namespace HeaderBlock

/-- The first header, if there is one. -/
def start (block : HeaderBlock) : Cursor := Cursor.advance { Cursor.finish with rest := block.raw }

def headers (block : HeaderBlock) : List Header := block.start.walk

def count (block : HeaderBlock) : Nat := block.headers.length

/-- The value of the first header with a name, which is matched in any case. -/
def find? (block : HeaderBlock) (name : Bytes) : Option Bytes :=
  (block.headers.find? fun h => Bytes.equalsIgnoringCase h.name name).map Header.value

/-- The fault of the first faulty line. -/
def fault? (block : HeaderBlock) : Option HeaderFault :=
  (Bytes.lines block.raw).findSome? Header.lineFault?

end HeaderBlock

end HttpExchange
