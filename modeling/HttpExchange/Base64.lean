import HttpExchange.Bytes

/-!
# Base64

Three bytes become four letters; a shorter rest at the end is padded with `=`.
`decode?` reads back what `encode` writes. Alphabet and padding are those of OpenSSL's block
encoder, which `encode` stands for.
-/

namespace HttpExchange

namespace Base64

/-- The letter of a value below 64. -/
def letter (n : Nat) : UInt8 :=
  UInt8.ofNat <|
    if n < 26 then 65 + n
    else if n < 52 then 71 + n
    else if n < 62 then n - 4
    else if n = 62 then 43
    else 47

def pad : UInt8 := 61

def encode : Bytes → Bytes
  | [] => []
  | [a] =>
    let n := a.toNat * 16
    [letter (n / 64), letter (n % 64), pad, pad]
  | [a, b] =>
    let n := (a.toNat * 256 + b.toNat) * 4
    [letter (n / 4096), letter (n / 64 % 64), letter (n % 64), pad]
  | a :: b :: c :: rest =>
    let n := a.toNat * 65536 + b.toNat * 256 + c.toNat
    letter (n / 262144) :: letter (n / 4096 % 64) :: letter (n / 64 % 64) :: letter (n % 64)
      :: encode rest

/-- The value of a letter. -/
def value? (b : UInt8) : Option Nat :=
  if Byte.isUpper b then some (b.toNat - 65)
  else if Byte.isLower b then some (b.toNat - 71)
  else if Byte.isDigit b then some (b.toNat + 4)
  else if b = 43 then some 62
  else if b = 47 then some 63
  else none

def decode? : Bytes → Option Bytes
  | [] => some []
  | [a, b, c, d] =>
    if d = pad then
      if c = pad then do
        let n := (← value? a) * 64 + (← value? b)
        return [UInt8.ofNat (n / 16)]
      else do
        let n := ((← value? a) * 64 + (← value? b)) * 64 + (← value? c)
        return [UInt8.ofNat (n / 1024), UInt8.ofNat (n / 4)]
    else do
      let n := (((← value? a) * 64 + (← value? b)) * 64 + (← value? c)) * 64 + (← value? d)
      return [UInt8.ofNat (n / 65536), UInt8.ofNat (n / 256), UInt8.ofNat n]
  | a :: b :: c :: d :: rest => do
    let n := (((← value? a) * 64 + (← value? b)) * 64 + (← value? c)) * 64 + (← value? d)
    return UInt8.ofNat (n / 65536) :: UInt8.ofNat (n / 256) :: UInt8.ofNat n :: (← decode? rest)
  | _ => none

/-! ## Encoding in groups -/

/-- The bytes of one group. -/
def groupSize : Nat := 48

/-- The bytes that wait for their group to be full, and the groups that were encoded before. -/
structure Staging where
  held : Bytes
  written : List Bytes

namespace Staging

def empty : Staging := ⟨[], []⟩

/-- What is held is a group. -/
def emit (st : Staging) : Staging := ⟨[], st.written ++ [encode st.held]⟩

/-- One byte more is held, until the group is full. -/
def store (st : Staging) (b : UInt8) : Staging :=
  let st := { st with held := st.held ++ [b] }
  if st.held.length = groupSize then st.emit else st

def feed (st : Staging) (text : Bytes) : Staging := text.foldl store st

/-- The last group need not be full. -/
def finish (st : Staging) : List Bytes := if st.held = [] then st.written else st.emit.written

end Staging

/-- Some texts as one, in groups of 48 bytes that are each encoded on their own. As 48 is a
multiple of three, only the last group can be padded. -/
def staged (texts : List Bytes) : List Bytes := (texts.foldl Staging.feed .empty).finish

end Base64

end HttpExchange
