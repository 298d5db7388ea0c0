import HttpExchange.Numeral
import HttpExchange.Response.Reader
import Mathlib.Algebra.Group.Nat.Defs

/-!
# Chunked text

A chunked body as a text, apart from how it arrives. `IsBody` is the grammar

    *( size-line data CRLF ) zero-size-line *( trailer-line ) CRLF

with the payload that a text of it stands for, and `Opens` is the same for the texts with
which a body may begin. A size counts up to 2 ^ 64; a line that names more is a fault. Digits
count up to 2 ^ 31: a line with more of them is no size line of the grammar, and what a scanner
makes of it is left aside wherever a text is to be `Countable`.

`decode` reads a whole text at once, line by line and without a state, and tells which data
it holds and how it ends: with the end of the body, at a fault, or too early. `decodeAt` does
the same from any place in a body, and its equations say what each place begins with.
-/

namespace HttpExchange

namespace ChunkText

def isHexDigit (b : UInt8) : Bool := (Byte.hexValue? b).isSome

/-- Blanks end the digits of a size. -/
theorem isHexDigit_of_blank {b : UInt8} (h : Byte.isBlank b = true) : isHexDigit b = false := by
  simp only [Byte.isBlank, Bool.or_eq_true, beq_iff_eq] at h
  rcases h with rfl | rfl <;> decide

theorem ne_cr_of_isHexDigit {b : UInt8} (h : isHexDigit b = true) : b ≠ Byte.cr := by
  rintro rfl
  exact absurd h (by decide)

theorem ne_semicolon_of_isHexDigit {b : UInt8} (h : isHexDigit b = true) :
    b ≠ Byte.semicolon := by
  rintro rfl
  exact absurd h (by decide)

/-- The sizes that a number of 64 bits holds are below this. -/
def sizeLimit : Nat := 0x10000000000000000

/-- The counts that a signed number of 32 bits holds are below this. -/
def countLimit : Nat := 0x80000000

/-- The digits with which a text begins. -/
def leadingDigits (s : Bytes) : Bytes := s.takeWhile isHexDigit

/-- How many digits there are, as far as 32 bits tell. -/
def digitCount (digits : Bytes) : Int32 := Int32.ofNat digits.length

theorem toInt_digitCount (digits : Bytes) :
    (digitCount digits).toInt = (digits.length : Int).bmod (2 ^ 32) := Int32.toInt_ofNat'

/-- No digits are seen where their number is a multiple of 2 ^ 32. -/
theorem digitCount_eq_zero_iff (digits : Bytes) :
    digitCount digits = 0 ↔ digits.length % 2 ^ 32 = 0 := by
  rw [← Int32.toInt_inj, toInt_digitCount, Int32.toInt_zero, Int.bmod_def]
  split <;> omega

theorem digitCount_pos_iff (digits : Bytes) :
    0 < digitCount digits ↔ 0 < digits.length % 2 ^ 32 ∧ digits.length % 2 ^ 32 < countLimit := by
  rw [Int32.lt_iff_toInt_lt, toInt_digitCount, Int32.toInt_zero, Int.bmod_def]
  unfold countLimit
  split <;> omega

/-- Digits that can be counted show in their count. -/
theorem digitCount_pos {digits : Bytes} (nonempty : digits ≠ [])
    (few : digits.length < countLimit) : 0 < digitCount digits := by
  have hpos : 0 < digits.length := List.length_pos_iff.mpr nonempty
  have hlength : digits.length % 2 ^ 32 = digits.length :=
    Nat.mod_eq_of_lt (Nat.lt_trans few (by decide))
  rw [digitCount_pos_iff, hlength]
  exact ⟨hpos, few⟩

theorem ne_zero_of_pos {count : Int32} (h : 0 < count) : count ≠ 0 := by
  rintro rfl
  exact absurd h (by decide)

/-! ## The grammar -/

/-- What may stand between the digits of a size and the end of its line, blanks apart. -/
inductive IsExtension : Bytes → Prop
  | none : IsExtension []
  | some {text : Bytes} (noCr : ∀ b ∈ text, b ≠ Byte.cr) : IsExtension (Byte.semicolon :: text)

/-- `1*HEXDIG *(SP | TAB) [ ";" *(any byte but CR) ] CRLF`, with fewer digits than the limit of
their count, and the value of the digits. -/
inductive IsSizeLine : Bytes → Nat → Prop
  | make {digits blanks extension : Bytes} (nonempty : digits ≠ [])
      (few : digits.length < countLimit) (hex : ∀ b ∈ digits, isHexDigit b = true)
      (blank : ∀ b ∈ blanks, Byte.isBlank b = true) (ext : IsExtension extension) :
      IsSizeLine (digits ++ (blanks ++ (extension ++ Bytes.crlf))) (Numeral.value 16 digits)

/-- Lines that are not empty, and then an empty one. -/
inductive AreTrailers : Bytes → Prop
  | done : AreTrailers Bytes.crlf
  | line {line text : Bytes} (nonempty : line ≠ []) (noCr : ∀ b ∈ line, b ≠ Byte.cr)
      (more : AreTrailers text) : AreTrailers (line ++ (Bytes.crlf ++ text))

/-- The first text is a body, and its data are the second. -/
inductive IsBody : Bytes → Bytes → Prop
  | last {line text : Bytes} (size : IsSizeLine line 0) (trailers : AreTrailers text) :
      IsBody (line ++ text) []
  | chunk {line data text payload : Bytes} (size : IsSizeLine line data.length)
      (nonempty : data ≠ []) (small : data.length < sizeLimit) (more : IsBody text payload) :
      IsBody (line ++ (data ++ (Bytes.crlf ++ text))) (data ++ payload)

/-- The first text is whole chunks and perhaps the front of another, and its data are the
second. -/
inductive Opens : Bytes → Bytes → Prop
  | nothing : Opens [] []
  | front {line data : Bytes} {n : Nat} (size : IsSizeLine line n) (small : n < sizeLimit)
      (within : data.length ≤ n) : Opens (line ++ data) data
  | chunk {line data text payload : Bytes} (size : IsSizeLine line data.length)
      (nonempty : data ≠ []) (small : data.length < sizeLimit) (more : Opens text payload) :
      Opens (line ++ (data ++ (Bytes.crlf ++ text))) (data ++ payload)

/-! ### Lines with any number of digits -/

/-- What a scanner passes over before the end of a size line. Blanks and an extension may only stand
behind digits that show in their count. -/
structure Front (digits blanks extension : Bytes) : Prop where
  hex : ∀ b ∈ digits, isHexDigit b = true
  blank : ∀ b ∈ blanks, Byte.isBlank b = true
  ext : IsExtension extension
  counted : blanks ++ extension ≠ [] → 0 < digitCount digits

/-- The line passes for a size line. With fewer digits than the limit of their count it is one. -/
inductive PassesFor : Bytes → Nat → Prop
  | make {digits blanks extension : Bytes} (front : Front digits blanks extension)
      (shown : digitCount digits ≠ 0) :
      PassesFor (digits ++ (blanks ++ (extension ++ Bytes.crlf))) (Numeral.value 16 digits)

/-- Whole chunks, one behind the other. -/
inductive AreChunks : Bytes → Prop
  | nothing : AreChunks []
  | chunk {line data text : Bytes} (size : IsSizeLine line data.length) (nonempty : data ≠ [])
      (small : data.length < sizeLimit) (more : AreChunks text) :
      AreChunks (line ++ (data ++ (Bytes.crlf ++ text)))

/-- Wherever a size is read in the text, its digits can be counted. -/
def Countable (s : Bytes) : Prop :=
  ∀ chunks rest, AreChunks chunks → s = chunks ++ rest → (leadingDigits rest).length < countLimit

/-! ## Pieces of framing -/

/-- What a text begins with: a whole piece with its value, only the front of one, or none. -/
inductive Piece (α : Type)
  | whole (value : α) (rest : Bytes)
  | cut
  | faulty (fault : ChunkFault)
deriving DecidableEq, Repr

/-- CRLF, with the faults of any other byte in either place. -/
def lineEnd (noCr noLf : ChunkFault) : Bytes → Piece Unit
  | [] => .cut
  | b :: s =>
    if b = Byte.cr then
      match s with
      | [] => .cut
      | c :: rest => if c = Byte.lf then .whole () rest else .faulty noLf
    else .faulty noCr

/-- What follows an extension, if there is one. -/
def skipExtension : Bytes → Bytes
  | [] => []
  | b :: s => if b = Byte.semicolon then s.dropWhile (· ≠ Byte.cr) else b :: s

/-- What follows the blanks and the extension of a size line. Without digits before them
neither may stand there. -/
def afterDigits (count : Int32) (s : Bytes) : Bytes :=
  if 0 < count then skipExtension (s.dropWhile Byte.isBlank) else s

/-- The size of a line, if its count shows that there were digits. -/
def counted? (count : Int32) (value : Nat) : Option Nat := if count = 0 then none else some value

/-- What the end of a size line comes to behind the digits that were seen. -/
def Piece.sized (seen : Option Nat) : Piece Unit → Piece Nat
  | .whole _ rest =>
    match seen with
    | none => .faulty .sizeMissing
    | some value => .whole value rest
  | .cut => .cut
  | .faulty fault => .faulty fault

def sizeLine (s : Bytes) : Piece Nat :=
  let digits := leadingDigits s
  let count := digitCount digits
  let value := Numeral.value 16 digits
  if sizeLimit ≤ value then .faulty .sizeOverflow
  else (lineEnd .sizeCharacter .sizeEnd (afterDigits count (s.dropWhile isHexDigit))).sized
    (counted? count value)

theorem eq_of_lineEnd {noCr noLf : ChunkFault} {s rest : Bytes}
    (h : lineEnd noCr noLf s = .whole () rest) : s = Bytes.crlf ++ rest := by
  unfold lineEnd at h
  split at h
  · cases h
  · split at h
    · rename_i hb
      split at h
      · cases h
      · split at h
        · rename_i hc
          cases h
          rw [hb, hc]
          rfl
        · cases h
    · cases h

theorem length_of_lineEnd_dropWhile {noCr noLf : ChunkFault} {s rest : Bytes}
    (h : lineEnd noCr noLf (s.dropWhile (· ≠ Byte.cr)) = .whole () rest) :
    rest.length < s.length := by
  have hcut := congrArg List.length (eq_of_lineEnd h)
  have hdrop : (s.dropWhile (· ≠ Byte.cr)).length ≤ s.length := (List.dropWhile_suffix _).length_le
  rw [hcut, List.length_append] at hdrop
  have : Bytes.crlf.length = 2 := rfl
  omega

theorem lineEnd_crlf (noCr noLf : ChunkFault) (rest : Bytes) :
    lineEnd noCr noLf (Bytes.crlf ++ rest) = .whole () rest := rfl

theorem length_skipExtension_le (s : Bytes) : (skipExtension s).length ≤ s.length := by
  unfold skipExtension
  split
  · exact Nat.le_refl _
  · split
    · exact Nat.le_trans (List.dropWhile_suffix _).length_le (Nat.le_succ _)
    · exact Nat.le_refl _

theorem length_afterDigits_le (count : Int32) (s : Bytes) :
    (afterDigits count s).length ≤ s.length := by
  unfold afterDigits
  split
  · exact Nat.le_trans (length_skipExtension_le _) (List.dropWhile_suffix _).length_le
  · exact Nat.le_refl _

theorem eq_of_sized {seen : Option Nat} {p : Piece Unit} {n : Nat} {rest : Bytes}
    (h : p.sized seen = .whole n rest) : seen = some n ∧ p = .whole () rest := by
  unfold Piece.sized at h
  split at h
  · split at h
    · cases h
    · cases h
      exact ⟨rfl, rfl⟩
  · cases h
  · cases h

theorem length_of_sizeLine {s rest : Bytes} {n : Nat} (h : sizeLine s = .whole n rest) :
    rest.length < s.length := by
  unfold sizeLine at h
  dsimp only at h
  split at h
  · cases h
  · have hcut := congrArg List.length (eq_of_lineEnd (eq_of_sized h).2)
    have hle := length_afterDigits_le (digitCount (leadingDigits s)) (s.dropWhile isHexDigit)
    have hdrop : (s.dropWhile isHexDigit).length ≤ s.length := (List.dropWhile_suffix _).length_le
    rw [hcut, List.length_append] at hle
    have : Bytes.crlf.length = 2 := rfl
    omega

/-- The lines behind the last chunk, up to the empty one. -/
def trailers (s : Bytes) : Piece Unit :=
  match _h : lineEnd .trailerEnd .trailerEnd (s.dropWhile (· ≠ Byte.cr)) with
  | .whole _ rest =>
    if s.takeWhile (· ≠ Byte.cr) = [] then .whole () rest else trailers rest
  | .cut => .cut
  | .faulty fault => .faulty fault
termination_by s.length
decreasing_by exact length_of_lineEnd_dropWhile _h

theorem trailers_eq (s : Bytes) : trailers s =
    match lineEnd .trailerEnd .trailerEnd (s.dropWhile (· ≠ Byte.cr)) with
    | .whole _ rest =>
      if s.takeWhile (· ≠ Byte.cr) = [] then .whole () rest else trailers rest
    | .cut => .cut
    | .faulty fault => .faulty fault := by
  rw [trailers]
  split <;> rename_i h <;> rw [h]

theorem trailers_cr (s : Bytes) :
    trailers (Byte.cr :: s) = lineEnd .trailerEnd .trailerEnd (Byte.cr :: s) := by
  rw [trailers_eq]
  simp only [ne_eq, decide_not, List.dropWhile_cons, decide_true, Bool.not_true, if_false,
    Bool.false_eq_true, List.takeWhile_cons, if_true]
  cases lineEnd .trailerEnd .trailerEnd (Byte.cr :: s) <;> rfl

theorem trailers_line {b : UInt8} (hb : b ≠ Byte.cr) (s : Bytes) : trailers (b :: s) =
    match lineEnd .trailerEnd .trailerEnd (s.dropWhile (· ≠ Byte.cr)) with
    | .whole _ rest => trailers rest
    | .cut => .cut
    | .faulty fault => .faulty fault := by
  rw [trailers_eq]
  simp only [ne_eq, hb, not_false_eq_true, decide_true, List.dropWhile_cons_of_pos,
    List.takeWhile_cons_of_pos, reduceCtorEq, if_false]

/-! ## The decoder -/

/-- How a text goes on behind the data that it holds. -/
inductive Tail
  | complete (rest : Bytes)
  | faulty (fault : ChunkFault)
  | cut (place : Cutoff)
deriving DecidableEq, Repr

structure Decoded where
  payload : Bytes
  tail : Tail
deriving DecidableEq, Repr

def Decoded.prepend (data : Bytes) (d : Decoded) : Decoded := ⟨data ++ d.payload, d.tail⟩

/-- What a piece of framing comes to when `next` says what its rest does. -/
def Piece.andThen {α : Type} (p : Piece α) (next : α → Bytes → Decoded) : Decoded :=
  match p with
  | .whole value rest => next value rest
  | .cut => ⟨[], .cut .chunkFraming⟩
  | .faulty fault => ⟨[], .faulty fault⟩

def decode (s : Bytes) : Decoded :=
  match _hs : sizeLine s with
  | .cut => ⟨[], .cut .chunkFraming⟩
  | .faulty fault => ⟨[], .faulty fault⟩
  | .whole size rest =>
    if size = 0 then (trailers rest).andThen fun _ rest => ⟨[], .complete rest⟩
    else if rest.length < size then ⟨rest, .cut .chunk⟩
    else match _he : lineEnd .dataEnd .dataEnd (rest.drop size) with
      | .cut => ⟨rest.take size, .cut .chunkFraming⟩
      | .faulty fault => ⟨rest.take size, .faulty fault⟩
      | .whole _ more => (decode more).prepend (rest.take size)
termination_by s.length
decreasing_by
  have hsize := length_of_sizeLine _hs
  have hcut := congrArg List.length (eq_of_lineEnd _he)
  rw [List.length_drop, List.length_append] at hcut
  omega

/-- What is found behind the data of a chunk. -/
def decodeDataEnd (s : Bytes) : Decoded :=
  (lineEnd .dataEnd .dataEnd s).andThen fun _ more => decode more

/-- What a reader finds that stands at a place of a body. -/
def decodeAt (s : Bytes) : ChunkPlace → Decoded
  | .size => decode s
  | .data outstanding =>
    if s.length < outstanding then ⟨s, .cut .chunk⟩
    else (decodeDataEnd (s.drop outstanding)).prepend (s.take outstanding)
  | .dataEnd => decodeDataEnd s
  | .trailers => (trailers s).andThen fun _ rest => ⟨[], .complete rest⟩

theorem decodeAt_data_of_lt {s : Bytes} {n : Nat} (h : s.length < n) :
    decodeAt s (.data n) = ⟨s, .cut .chunk⟩ := by
  show (if s.length < n then _ else _) = _
  rw [if_pos h]

theorem decodeAt_data_of_le {s : Bytes} {n : Nat} (h : n ≤ s.length) :
    decodeAt s (.data n) = (decodeAt (s.drop n) .dataEnd).prepend (s.take n) := by
  show (if s.length < n then _ else _) = _
  rw [if_neg (Nat.not_lt.mpr h)]
  rfl

theorem decodeAt_dataEnd (s : Bytes) : decodeAt s .dataEnd =
    (lineEnd .dataEnd .dataEnd s).andThen fun _ more => decodeAt more .size := rfl

theorem decodeAt_trailers (s : Bytes) : decodeAt s .trailers =
    (trailers s).andThen fun _ rest => ⟨[], .complete rest⟩ := rfl

/-- At a size line the line is read first, and then what it announces. -/
theorem decodeAt_size (s : Bytes) : decodeAt s .size = (sizeLine s).andThen fun size rest =>
    if size = 0 then decodeAt rest .trailers else decodeAt rest (.data size) := by
  show decode s = _
  rw [decode]
  cases hs : sizeLine s with
  | cut => rfl
  | faulty fault => rfl
  | whole size rest =>
      show (if size = 0 then _ else _) = if size = 0 then _ else _
      split
      · rw [decodeAt_trailers]
      · split
        · rename_i hlt
          rw [decodeAt_data_of_lt hlt]
        · rename_i hle
          rw [decodeAt_data_of_le (Nat.not_lt.mp hle), decodeAt_dataEnd]
          cases lineEnd .dataEnd .dataEnd (rest.drop size) with
          | cut => simp [Piece.andThen, Decoded.prepend]
          | faulty fault => simp [Piece.andThen, Decoded.prepend]
          | whole value more => rfl

end ChunkText

end HttpExchange
