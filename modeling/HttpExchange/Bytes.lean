/-!
# Bytes and the ways of cutting them

Everything that travels over a connection is a list of bytes. This module holds the
few operations that the text of HTTP needs: letters folded to lower case, blanks
trimmed from both ends, and text cut into comma-separated items or CRLF lines.

* `fields` and `lines` end a piece at its separator; a last piece may lack one, and
  nothing follows a final separator.
* `cutLine` and `cutBlankLine` split at the first CRLF and at the first empty line;
  `nextLine` takes a last line for a line as well.
-/

namespace HttpExchange

abbrev Bytes := List UInt8

/-- The bytes of a text whose characters are all below U+0100. -/
def ascii (s : String) : Bytes := s.toList.map fun c => UInt8.ofNat c.toNat

namespace Byte

def ht : UInt8 := 9
def lf : UInt8 := 10
def cr : UInt8 := 13
def sp : UInt8 := 32
def hash : UInt8 := 35
def percent : UInt8 := 37
def comma : UInt8 := 44
def dash : UInt8 := 45
def dot : UInt8 := 46
def slash : UInt8 := 47
def colon : UInt8 := 58
def semicolon : UInt8 := 59
def question : UInt8 := 63
def atSign : UInt8 := 64
def openBracket : UInt8 := 91
def backslash : UInt8 := 92
def closeBracket : UInt8 := 93
def bar : UInt8 := 124

def isDigit (b : UInt8) : Bool := 48 ≤ b && b ≤ 57

def isUpper (b : UInt8) : Bool := 65 ≤ b && b ≤ 90

def isLower (b : UInt8) : Bool := 97 ≤ b && b ≤ 122

/-- Space or horizontal tab. -/
def isBlank (b : UInt8) : Bool := b == sp || b == ht

/-- Control bytes, space and DEL, which no part of a URL may hold. -/
def isJunk (b : UInt8) : Bool := b ≤ 32 || b == 127

/-- ASCII letters to lower case; every other byte stays. -/
def lower (b : UInt8) : UInt8 := if isUpper b then b + 32 else b

/-- The value of a hexadecimal digit in either case. -/
def hexValue? (b : UInt8) : Option UInt8 :=
  if isDigit b then some (b - 48)
  else if 97 ≤ b && b ≤ 102 then some (b - 87)
  else if 65 ≤ b && b ≤ 70 then some (b - 55)
  else none

end Byte

namespace Bytes

def crlf : Bytes := [Byte.cr, Byte.lf]

/-- ASCII letters compare without regard to case. -/
def equalsIgnoringCase (a b : Bytes) : Bool := a.map Byte.lower == b.map Byte.lower

/-- Without the blanks at either end. -/
def trim (s : Bytes) : Bytes :=
  ((s.dropWhile Byte.isBlank).reverse.dropWhile Byte.isBlank).reverse

/-- The part before the first `b`, or all of it. -/
def before (b : UInt8) (s : Bytes) : Bytes := s.takeWhile (· != b)

/-- The parts before and after the first `b`. -/
def cutAt? (b : UInt8) : Bytes → Option (Bytes × Bytes)
  | [] => none
  | c :: rest =>
    if c = b then some ([], rest)
    else (cutAt? b rest).map fun (l, r) => (c :: l, r)

/-- The text after `data` is stored over it at a place. -/
def splice (s : Bytes) (place : Nat) (data : Bytes) : Bytes :=
  s.take place ++ data ++ s.drop (place + data.length)

/-- A zero-terminated text ends at its first NUL. -/
def untilNul (s : Bytes) : Bytes := before 0 s

/-- The pieces that `sep` ends or separates. -/
def fields (sep : UInt8) : Bytes → List Bytes
  | [] => []
  | b :: rest =>
    if b = sep then [] :: fields sep rest
    else match fields sep rest with
      | [] => [[b]]
      | piece :: pieces => (b :: piece) :: pieces

/-- The lines that CRLF ends or separates. -/
def lines : Bytes → List Bytes
  | [] => []
  | [b] => [[b]]
  | b :: c :: rest =>
    if b = Byte.cr ∧ c = Byte.lf then [] :: lines rest
    else match lines (c :: rest) with
      | [] => [[b]]
      | line :: more => (b :: line) :: more

/-- The first line and what follows its CRLF. -/
def cutLine : Bytes → Option (Bytes × Bytes)
  | [] => none
  | [_] => none
  | b :: c :: rest =>
    if b = Byte.cr ∧ c = Byte.lf then some ([], rest)
    else (cutLine (c :: rest)).map fun (l, r) => (b :: l, r)

theorem length_of_cutLine {s line rest : Bytes} (h : cutLine s = some (line, rest)) :
    rest.length < s.length := by
  fun_induction cutLine s generalizing line with
  | case1 => cases h
  | case2 => cases h
  | case3 b c after hcrlf =>
      cases h
      simp only [List.length_cons]
      omega
  | case4 b c after hcrlf ih =>
      obtain ⟨⟨l, r⟩, hcut, heq⟩ := Option.map_eq_some_iff.mp h
      cases heq
      exact Nat.lt_succ_of_lt (ih hcut)

/-- The first line, be it that a CRLF ends it or that the text does, and what follows. -/
def nextLine (s : Bytes) : Bytes × Bytes := (cutLine s).getD (s, [])

theorem length_nextLine {s : Bytes} (h : s ≠ []) : (nextLine s).2.length < s.length := by
  unfold nextLine
  cases hcut : cutLine s with
  | none => exact List.length_pos_iff.mpr h
  | some found => exact length_of_cutLine hcut

/-- The parts before and after the first CRLF CRLF. -/
def cutBlankLine : Bytes → Option (Bytes × Bytes)
  | [] => none
  | b :: rest =>
    match rest with
    | c :: d :: e :: after =>
      if b = Byte.cr ∧ c = Byte.lf ∧ d = Byte.cr ∧ e = Byte.lf then some ([], after)
      else (cutBlankLine rest).map fun (l, r) => (b :: l, r)
    | _ => none

/-- Whether one of the comma-separated items of `list`, without its parameters, is
`token` in any case. -/
def hasToken (list token : Bytes) : Bool :=
  (fields Byte.comma list).any fun item =>
    equalsIgnoringCase (trim (before Byte.semicolon (trim item))) token

end Bytes

end HttpExchange
