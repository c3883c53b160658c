/-!
# Bytes in sixty-four letters

## Four letters for three bytes

Each letter carries six bits.  Characters that carry none are passed over, and a last
group of two or three letters is filled up with equals signs.
-/

namespace Joinery
namespace Yaml
namespace Base64

def sextet? (c : Char) : Option Nat :=
  if c.isUpper then some (c.toNat - 'A'.toNat)
  else if c.isLower then some (c.toNat - 'a'.toNat + 26)
  else if c.isDigit then some (c.toNat - '0'.toNat + 52)
  else if c = '+' then some 62
  else if c = '/' then some 63
  else none

def completed? : List Nat -> Nat -> Option UInt8
  | [], _ => none
  | last :: before, six =>
      match before.length with
      | 0 => some (UInt8.ofNat (last * 4 + six / 16))
      | 1 => some (UInt8.ofNat (last % 16 * 16 + six / 4))
      | _ => some (UInt8.ofNat (last % 4 * 64 + six))

def bytesFrom (group : List Nat) (signs : Nat) : List Char -> Option (List UInt8)
  | [] => if group.isEmpty then some [] else none
  | c :: rest =>
      if c = '=' then
        if 2 ≤ group.length && 4 ≤ group.length + signs + 1 then some []
        else bytesFrom group (if 2 ≤ group.length then signs + 1 else signs) rest
      else
        match sextet? c with
        | none => bytesFrom group signs rest
        | some six =>
            let next := if group.length = 3 then [] else six :: group
            (bytesFrom next 0 rest).map fun bytes => (completed? group six).toList ++ bytes

def bytes? (text : List Char) : Option (List UInt8) :=
  bytesFrom [] 0 text

end Base64
end Yaml
end Joinery
