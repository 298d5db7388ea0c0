import HttpExchange.Bytes

/-!
# Numerals

Numbers as digits and back. Writing never pads; reading takes digits only, at least
one of them, and refuses a value beyond the width that the caller names.
-/

namespace HttpExchange

namespace Numeral

/-- The digit of a value below 16, in lower case. -/
def digit (d : Nat) : UInt8 := UInt8.ofNat (if d < 10 then 48 + d else 87 + d)

def render (base : Nat) (h : 1 < base) (n : Nat) : Bytes :=
  if n < base then [digit n]
  else render base h (n / base) ++ [digit (n % base)]
termination_by n
decreasing_by exact Nat.div_lt_self (by omega) h

def decimal (n : Nat) : Bytes := render 10 (by decide) n

def hexadecimal (n : Nat) : Bytes := render 16 (by decide) n

def signed : Int → Bytes
  | .ofNat n => decimal n
  | .negSucc n => Byte.dash :: decimal (n + 1)

/-- The value of the digits, read from the left. -/
def value (base : Nat) (digits : Bytes) : Nat :=
  digits.foldl (fun n b => base * n + ((Byte.hexValue? b).getD 0).toNat) 0

/-- Decimal digits and nothing else, with a value below `bound`. -/
def decimal? (bound : Nat) (s : Bytes) : Option Nat :=
  if s ≠ [] ∧ s.all Byte.isDigit ∧ value 10 s < bound then some (value 10 s) else none

/-- A size or a seed: an unsigned number of 64 bits. -/
def word64? (s : Bytes) : Option Nat := decimal? 0x10000000000000000 s

/-- A signed number of 32 bits; only a minus sign may stand before the digits. -/
def int32? : Bytes → Option Int
  | [] => none
  | b :: rest =>
    if b = Byte.dash then (decimal? 0x80000001 rest).map fun n => -(n : Int)
    else (decimal? 0x80000000 (b :: rest)).map fun n => (n : Int)

/-- Bytes from pairs of hexadecimal digits; at least one pair. -/
def hexBytes? : Bytes → Option Bytes
  | [] => none
  | [_] => none
  | [a, b] => do
    let high ← Byte.hexValue? a
    let low ← Byte.hexValue? b
    return [16 * high + low]
  | a :: b :: rest => do
    let high ← Byte.hexValue? a
    let low ← Byte.hexValue? b
    return (16 * high + low) :: (← hexBytes? rest)

/-- Two lower-case digits for every byte. -/
def hexText (s : Bytes) : Bytes :=
  s.flatMap fun b => [digit (b.toNat / 16), digit (b.toNat % 16)]

end Numeral

end HttpExchange
