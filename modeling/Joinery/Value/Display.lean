import Joinery.Text.Printable
import Joinery.Value.Basic

/-!
# Showing values

## A value in the place of a text

Where a text is asked for and another value stands, the value is shown: numbers in
their shortest form, words for the truth values, lists and mappings with their
items in quotes.
-/

namespace Joinery
namespace Value

/-- A number stands without an exponent from a ten thousandth up to ten to the power 16. -/
def displayStyle : Binary64.Style :=
  { least := -4, greatest := 15, exponentWidth := 2 }

def hexCode (width code : Nat) : List Char :=
  Binary64.padded width (Nat.toDigits 16 code)

def displayChar (quote c : Char) : List Char :=
  if c = quote || c = '\\' then ['\\', c]
  else if c = '\n' then ['\\', 'n']
  else if c = '\r' then ['\\', 'r']
  else if c = '\t' then ['\\', 't']
  else if Text.isPrintable c then [c]
  else if c.toNat < 0x100 then '\\' :: 'x' :: hexCode 2 c.toNat
  else if c.toNat < 0x10000 then '\\' :: 'u' :: hexCode 4 c.toNat
  else '\\' :: 'U' :: hexCode 8 c.toNat

def displayLetter (quote : Char) : Letter -> List Char
  | .char c => displayChar quote c
  | .half unit => '\\' :: 'u' :: hexCode 4 unit

/-- A byte inside quotes of one kind; those beyond ASCII are shown by their codes. -/
def displayByte (quote : Char) (b : UInt8) : List Char :=
  if b < 0x80 then displayChar quote (Char.ofNat b.toNat)
  else '\\' :: 'x' :: hexCode 2 b.toNat

def quoteFor (hasSingle hasDouble : Bool) : Char :=
  if hasSingle && !hasDouble then '"' else '\''

def quotedLetters (letters : Letters) : String :=
  let quote := quoteFor (letters.contains (.char '\'')) (letters.contains (.char '"'))
  String.ofList (quote :: letters.flatMap (displayLetter quote) ++ [quote])

def quotedText (text : List Char) : String :=
  quotedLetters (.ofText text)

def quotedBytes (data : List UInt8) : String :=
  let quote := quoteFor (data.contains 0x27) (data.contains 0x22)
  String.ofList ('b' :: quote :: data.flatMap (displayByte quote) ++ [quote])

mutual

def quoted : Value -> String
  | .null => "None"
  | .bool true => "True"
  | .bool false => "False"
  | .int i => toString i
  | .real r => r.write displayStyle
  | .text s => quotedText s.toList
  | .halves letters => quotedLetters letters
  | .bytes data => quotedBytes data
  | .moment m => m.display
  | .list items => "[" ++ quotedItems items ++ "]"
  | .set items => "\x7b" ++ quotedItems items ++ "\x7d"
  | .mapping entries => "\x7b" ++ quotedEntries entries ++ "\x7d"

def quotedItems : List Value -> String
  | [] => ""
  | [v] => quoted v
  | v :: w :: rest => quoted v ++ ", " ++ quotedItems (w :: rest)

def quotedEntries : List (Value × Value) -> String
  | [] => ""
  | [(k, v)] => quoted k ++ ": " ++ quoted v
  | (k, v) :: e :: rest => quoted k ++ ": " ++ quoted v ++ ", " ++ quotedEntries (e :: rest)

end

def display : Value -> String
  | .text s => s
  | v => quoted v

def isVacant : Value -> Bool
  | .null => true
  | .bool b => !b
  | .int i => i == 0
  | .real (.finite _ significand _) => significand == 0
  | .real _ => false
  | .text s => s.isEmpty
  | .halves letters => letters.isEmpty
  | .bytes data => data.isEmpty
  | .moment _ => false
  | .list items => items.isEmpty
  | .set items => items.isEmpty
  | .mapping entries => entries.isEmpty

end Value
end Joinery
