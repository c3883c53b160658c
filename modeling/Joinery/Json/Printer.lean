import Joinery.Sorting
import Joinery.Text.Numeral
import Joinery.Value.Basic

/-!
# Writing JSON

## Compact and indented text

A value is written on one line, or with one item to a line and two spaces of
indentation for each level.  `sortKeys` puts the entries of all mappings in order.
-/

namespace Joinery
namespace Json

/-- A number stands without an exponent from a hundred thousandth up to ten to the power 16. -/
def numberStyle : Binary64.Style :=
  { least := -5, greatest := 15, exponentWidth := 1 }

def hexLetter (n : Nat) : Char :=
  Nat.digitChar n

def writeChar (c : Char) : List Char :=
  if c = '"' then ['\\', '"']
  else if c = '\\' then ['\\', '\\']
  else if c = '\x08' then ['\\', 'b']
  else if c = '\x0c' then ['\\', 'f']
  else if c = '\n' then ['\\', 'n']
  else if c = '\r' then ['\\', 'r']
  else if c = '\t' then ['\\', 't']
  else if c.toNat < 0x20 then
    ['\\', 'u', '0', '0', hexLetter (c.toNat / 16), hexLetter (c.toNat % 16)]
  else [c]

def writeText (text : String) : String :=
  "\"" ++ String.ofList (text.toList.flatMap writeChar) ++ "\""

def writeScalar : Value -> String
  | .bool true => "true"
  | .bool false => "false"
  | .int i => toString i
  | .real (.finite negative significand exponent) =>
      (Binary64.finite negative significand exponent).write numberStyle
  | .text s => writeText s
  | _ => "null"

def keyText : Value -> String
  | .text s => s
  | v => writeScalar v

mutual

def compact : Value -> String
  | .list items => "[" ++ compactItems items ++ "]"
  | .set items => "[" ++ compactItems items ++ "]"
  | .mapping entries => "\x7b" ++ compactEntries entries ++ "\x7d"
  | v => writeScalar v

def compactItems : List Value -> String
  | [] => ""
  | [v] => compact v
  | v :: w :: rest => compact v ++ "," ++ compactItems (w :: rest)

def compactEntries : List (Value × Value) -> String
  | [] => ""
  | [(k, v)] => writeText (keyText k) ++ ":" ++ compact v
  | (k, v) :: e :: rest =>
      writeText (keyText k) ++ ":" ++ compact v ++ "," ++ compactEntries (e :: rest)

end

def newLine (depth : Nat) : String :=
  String.ofList ('\n' :: List.replicate (2 * depth) ' ')

mutual

def indented (depth : Nat) : Value -> String
  | .list items => indentedList depth items
  | .set items => indentedList depth items
  | .mapping entries =>
      if entries.isEmpty then "\x7b\x7d"
      else "\x7b" ++ indentedEntries (depth + 1) entries ++ newLine depth ++ "\x7d"
  | v => writeScalar v

def indentedList (depth : Nat) (items : List Value) : String :=
  if items.isEmpty then "[]"
  else "[" ++ indentedItems (depth + 1) items ++ newLine depth ++ "]"

def indentedItems (depth : Nat) : List Value -> String
  | [] => ""
  | [v] => newLine depth ++ indented depth v
  | v :: w :: rest => newLine depth ++ indented depth v ++ "," ++ indentedItems depth (w :: rest)

def indentedEntries (depth : Nat) : List (Value × Value) -> String
  | [] => ""
  | [(k, v)] => newLine depth ++ writeText (keyText k) ++ ": " ++ indented depth v
  | (k, v) :: e :: rest =>
      newLine depth ++ writeText (keyText k) ++ ": " ++ indented depth v ++ "," ++
        indentedEntries depth (e :: rest)

end

/-!
# Order of keys and range of integers
-/

mutual

def sortKeys : Value -> Value
  | .list items => .list (sortKeysOfAll items)
  | .mapping entries =>
      .mapping (sortBy (fun a b => decide (keyText a.1 ≤ keyText b.1))
        (sortKeysOfEntries entries))
  | v => v

def sortKeysOfAll : List Value -> List Value
  | [] => []
  | v :: rest => sortKeys v :: sortKeysOfAll rest

def sortKeysOfEntries : List (Value × Value) -> List (Value × Value)
  | [] => []
  | (k, v) :: rest => (k, sortKeys v) :: sortKeysOfEntries rest

end

mutual

def isWritable : Value -> Bool
  | .int i => Numeral.fits i
  | .list items => areWritable items
  | .mapping entries => areWritableEntries entries
  | _ => true

def areWritable : List Value -> Bool
  | [] => true
  | v :: rest => isWritable v && areWritable rest

def areWritableEntries : List (Value × Value) -> Bool
  | [] => true
  | (_, v) :: rest => isWritable v && areWritableEntries rest

end

end Json
end Joinery
