/-!
# Letters

## Characters, and halves of pairs

Some writers count a text in units of sixteen bits, and an escape of theirs can name
one half of a pair of units alone.  Such a half is no character.  A letter is a
character or a half, and a list of letters is a text if it holds no half.
-/

namespace Joinery

inductive Letter where
  | char (c : Char)
  /-- a unit from U+D800 to U+DFFF -/
  | half (unit : Nat)
deriving DecidableEq, Repr

abbrev Letters : Type :=
  List Letter

namespace Letter

def ofCode (code : Nat) : Letter :=
  if 0xD800 ≤ code && code < 0xE000 then .half code else .char (Char.ofNat code)

def char? : Letter -> Option Char
  | .char c => some c
  | .half _ => none

def isChar (p : Char -> Bool) (l : Letter) : Bool :=
  l.char?.any p

end Letter

namespace Letters

def ofText (text : List Char) : Letters :=
  text.map .char

def text? (letters : Letters) : Option (List Char) :=
  letters.mapM Letter.char?

end Letters
end Joinery
