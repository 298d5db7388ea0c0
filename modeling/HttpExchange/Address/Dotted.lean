import HttpExchange.Address

/-!
# IPv4 text

Two readings of an IPv4 address.

* `quad?`: exactly four decimal octets, none with a leading zero.
* `numbers?`: one to four numbers, each decimal, hexadecimal after `0x` or octal after
  `0`; all but the last are octets and the last fills the octets that remain.
-/

namespace HttpExchange

namespace Dotted

/-- A decimal octet without a leading zero. -/
def octet? (s : Bytes) : Option UInt8 :=
  match s with
  | 48 :: _ :: _ => none
  | _ => (Numeral.decimal? 256 s).map UInt8.ofNat

/-- The texts between the dots, an empty one at the end included. -/
def parts (s : Bytes) : List Bytes :=
  let fields := Bytes.fields Byte.dot s
  if s.getLast? = some Byte.dot then fields ++ [[]] else fields

def quad? (s : Bytes) : Option IpAddress :=
  match parts s with
  | [a, b, c, d] => do return .quad (← octet? a) (← octet? b) (← octet? c) (← octet? d)
  | _ => none

/-- A number in the base that its first characters name. -/
def number? (s : Bytes) : Option Nat :=
  match s with
  | 48 :: x :: rest =>
    if x = 120 ∨ x = 88 then
      if rest ≠ [] ∧ rest.all (fun b => (Byte.hexValue? b).isSome) then
        some (Numeral.value 16 rest)
      else none
    else if (x :: rest).all (fun b => 48 ≤ b && b ≤ 55) then some (Numeral.value 8 (x :: rest))
    else none
  | _ =>
    if s ≠ [] ∧ s.all Byte.isDigit then some (Numeral.value 10 s) else none

def numbers? (s : Bytes) : Option IpAddress := do
  match ← (parts s).mapM number? with
  | [a] => if a < 0x100000000 then some (.ofWord a) else none
  | [a, b] => if a < 0x100 ∧ b < 0x1000000 then some (.ofWord (a * 0x1000000 + b)) else none
  | [a, b, c] =>
    if a < 0x100 ∧ b < 0x100 ∧ c < 0x10000 then
      some (.ofWord (a * 0x1000000 + b * 0x10000 + c))
    else none
  | [a, b, c, d] =>
    if a < 0x100 ∧ b < 0x100 ∧ c < 0x100 ∧ d < 0x100 then
      some (.ofWord (a * 0x1000000 + b * 0x10000 + c * 0x100 + d))
    else none
  | _ => none

end Dotted

end HttpExchange
