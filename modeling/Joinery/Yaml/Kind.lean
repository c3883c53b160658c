import Joinery.Yaml.MomentText

/-!
# Kinds of nodes

## What a tag or a plain scalar says

The kind of a node says how its content is to be read.  A tag names it.  A scalar
without quotes and without a tag shows it by its form: `yes` is a truth value, `0x1F`
an integer and `1:30` one too.
-/

namespace Joinery
namespace Yaml

/-- How the content of a node is read. -/
inductive Kind where
  | null
  | bool
  | integer
  | real
  | bytes
  | moment
  | text
  | list
  | mapping
  | set
  /-- a list of pairs, each written as a mapping with one entry -/
  | pairs
  /-- the key whose value lends its entries -/
  | merge
  /-- the key whose value stands for the whole mapping -/
  | default
  | unknown
deriving DecidableEq, Repr

namespace Kind

def tagStart : String :=
  "tag:yaml.org,2002:"

def names : List (String × Kind) :=
  [("null", .null), ("bool", .bool), ("int", .integer), ("float", .real), ("binary", .bytes),
    ("timestamp", .moment), ("omap", .pairs), ("pairs", .pairs), ("set", .set), ("str", .text),
    ("seq", .list), ("map", .mapping), ("merge", .merge), ("value", .default)]

def ofTag (tag : String) : Kind :=
  ((names.map fun n => (tagStart ++ n.1, n.2)).lookup tag).getD .unknown

/-!
## Forms of plain scalars
-/

def truthWords : List (String × Bool) :=
  [("yes", true), ("no", false), ("true", true), ("false", false), ("on", true), ("off", false)]

def spellings (word : String) : List String :=
  let letters := word.toList
  let capital := (letters.take 1).map Char.toUpper ++ letters.drop 1
  [word, String.ofList capital, String.ofList (letters.map Char.toUpper)]

def isTruthWord (text : String) : Bool :=
  (truthWords.flatMap fun w => spellings w.1).contains text

def isDigitOrGap (c : Char) : Bool :=
  c.isDigit || c == '_'

def beginsWithDigit (text : List Char) : Bool :=
  text.head?.any Char.isDigit && text.all isDigitOrGap

def isSixtieth : List Char -> Bool
  | [low] => low.isDigit
  | [high, low] => '0' ≤ high && high ≤ '5' && low.isDigit
  | _ => false

def isInteger (text : List Char) : Bool :=
  match (Numeral.takeSign text).2 with
  | ['0'] => true
  | '0' :: 'b' :: rest => !rest.isEmpty && rest.all fun c => c == '0' || c == '1' || c == '_'
  | '0' :: 'x' :: rest =>
      !rest.isEmpty && rest.all fun c => (Numeral.digit? c).isSome || c == '_'
  | '0' :: rest => !rest.isEmpty && rest.all fun c => ('0' ≤ c && c ≤ '7') || c == '_'
  | body =>
      match List.splitOn ':' body with
      | first :: others => beginsWithDigit first && others.all isSixtieth
      | [] => false

def isExponent : List Char -> Bool
  | [] => true
  | e :: sign :: digits =>
      (e == 'e' || e == 'E') && (sign == '-' || sign == '+') && !digits.isEmpty &&
        digits.all Char.isDigit
  | [_] => false

def isFraction (text : List Char) : Bool :=
  isExponent (text.dropWhile isDigitOrGap)

def isReal (text : List Char) : Bool :=
  let before := text.takeWhile fun c => c != '.'
  let unsigned := (Numeral.takeSign before).2
  match text.drop before.length with
  | [] => false
  | _ :: after =>
      let word := String.ofList after
      (beginsWithDigit unsigned && isFraction after) ||
        (before.isEmpty && after.head?.any Char.isDigit && isFraction after) ||
        (match List.splitOn ':' unsigned with
          | first :: other :: others =>
              beginsWithDigit first && (other :: others).all isSixtieth && after.all isDigitOrGap
          | _ => false) ||
        (unsigned.isEmpty && ["inf", "Inf", "INF"].contains word) ||
        (before.isEmpty && ["nan", "NaN", "NAN"].contains word)

def withoutLineEnd (text : List Char) : List Char :=
  if 1 < text.length && text.getLast? == some '\n' then text.dropLast else text

/-- The kind that a scalar without quotes shows by its form; a line end after it does not count. -/
def ofPlain (text : String) : Kind :=
  let letters := withoutLineEnd text.toList
  let word := String.ofList letters
  if word.isEmpty || word == "~" || (spellings "null").contains word then .null
  else if isTruthWord word then .bool
  else if isReal letters then .real
  else if isInteger letters then .integer
  else if word == "<<" then .merge
  else if MomentText.isPlain letters then .moment
  else if word == "=" then .default
  else if word == "!" || word == "&" || word == "*" then .unknown
  else .text

end Kind
end Yaml
end Joinery
