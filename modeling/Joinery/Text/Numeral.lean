/-!
# Numerals

## Digits and their value

Digits of a base up to sixteen are read from left to right, each one worth the base
times as much as its right neighbour.
-/

namespace Joinery
namespace Numeral

def digit? (c : Char) : Option Nat :=
  if c.isDigit then some (c.toNat - '0'.toNat)
  else if 'a' ≤ c && c ≤ 'f' then some (c.toNat - 'a'.toNat + 10)
  else if 'A' ≤ c && c ≤ 'F' then some (c.toNat - 'A'.toNat + 10)
  else none

def valueIn? (base : Nat) (digits : List Char) : Option Nat :=
  digits.foldlM
    (fun value c => (digit? c).bind fun d => if d < base then some (base * value + d) else none)
    0

def decimal (digits : List Char) : Nat :=
  digits.foldl (fun value c => 10 * value + (c.toNat - '0'.toNat)) 0

def takeSign : List Char -> Bool × List Char
  | '-' :: rest => (true, rest)
  | '+' :: rest => (false, rest)
  | rest => (false, rest)

def signed (negative : Bool) (value : Nat) : Int :=
  if negative then -(value : Int) else value

def leastSigned : Int :=
  -9223372036854775808

def fitsSigned (i : Int) : Bool :=
  leastSigned ≤ i && i ≤ 9223372036854775807

def fits (i : Int) : Bool :=
  leastSigned ≤ i && i ≤ 18446744073709551615

end Numeral
end Joinery
