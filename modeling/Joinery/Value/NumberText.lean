import Joinery.Text.Blank
import Joinery.Text.Numeral
import Joinery.Value.Binary64

/-!
# Numbers in texts

## Texts that stand for a number

A number is written plainly or loosely.  A plain integer has no blanks around it, no
plus sign and no zero before its digits.  A loose one may have them, and single
underscores between its digits, and a fraction of zeros.  A loose real may have
blanks around it or underscores inside, but not both.
-/

namespace Joinery
namespace NumberText

def isNumberBlank (c : Char) : Bool :=
  Text.isBlank c && !(0x1C ≤ c.toNat && c.toNat ≤ 0x1F)

def trimNumber (text : List Char) : List Char :=
  Text.dropEnd isNumberBlank (Text.dropStart isNumberBlank text)

def isCounting (c : Char) : Bool :=
  '1' ≤ c && c ≤ '9'

def withoutGaps? (text : List Char) : Option (List Char) :=
  let groups := List.splitOn '_' text
  if 1 < groups.length && groups.all fun g => !g.isEmpty then some groups.flatten else none

/-!
## Integers
-/

def lengthLimit : Nat :=
  4300

def takeMinus : List Char -> Bool × List Char
  | '-' :: rest => (true, rest)
  | rest => (false, rest)

/-- The number of characters of the plain integer in front of a text, unless it is zero. -/
def plainLength (text : List Char) : Nat :=
  let (negative, body) := takeMinus text
  if body.head?.any isCounting then
    (body.takeWhile Char.isDigit).length + (if negative then 1 else 0)
  else 0

def plainInteger? (text : List Char) : Option Int :=
  let (negative, body) := takeMinus text
  if body = ['0'] then some 0
  else if body.head?.any isCounting && body.all Char.isDigit then
    some (Numeral.signed negative (Numeral.decimal body))
  else none

/-- The text without the zeros in front of a number and the underscores among them.  The number
may begin with a minus sign of its own; a zero that is all there is of it is kept. -/
def withoutZeros? (text : List Char) : Option (List Char) :=
  let front := text.takeWhile fun c => c == '0' || c == '_'
  let last := front.drop (front.length - 1)
  match front, text.drop front.length with
  | '_' :: _, _ => none
  | [], c :: rest => if isCounting c then some (c :: rest) else none
  | [], [] => none
  | _, [] => some last
  | _, '.' :: rest => some (last ++ '.' :: rest)
  | _, c :: rest => if isCounting c || c = '-' then some (c :: rest) else none

def withoutFraction (text : List Char) : List Char :=
  let whole := text.takeWhile fun c => c != '.'
  let zeros := text.drop (whole.length + 1)
  if !zeros.isEmpty && zeros.all (· == '0') then whole else text

def tidy? (text : List Char) : Option (List Char) :=
  let signed :=
    match trimNumber text with
    | '+' :: '-' :: _ => []
    | '+' :: rest => rest
    | rest => rest
  let (negative, body) := takeMinus signed
  (withoutZeros? body).map fun body =>
    let body := withoutFraction body
    let digits := (withoutGaps? body).getD body
    if negative then '-' :: digits else digits

inductive IntegerReading where
  | value (i : Int)
  /-- it begins with a plain integer of too many digits -/
  | tooLong
  | none
deriving DecidableEq, Repr

def readInteger (text : List Char) : IntegerReading :=
  if lengthLimit < plainLength text then .tooLong
  else
    let tidied := (tidy? text).filter fun t => plainLength t ≤ lengthLimit
    match (plainInteger? text).or (tidied.bind plainInteger?) with
    | some i => .value i
    | Option.none => .none

/-!
## Reals
-/

def unboundedWords : List (String × Binary64) :=
  [("inf", .infinite false), ("infinity", .infinite false), ("nan", .undefined)]

def decimal? (negative : Bool) (body : List Char) : Option Binary64 :=
  let lower := body.map Char.toLower
  let mantissa := lower.takeWhile fun c => c != 'e'
  let power := lower.drop mantissa.length
  let exponent : Option Int :=
    match power with
    | [] => some 0
    | _ :: rest =>
        let (minus, digits) := Numeral.takeSign rest
        if digits.isEmpty || !digits.all Char.isDigit then none
        else some (Numeral.signed minus (Numeral.decimal digits))
  let parts : Option (List Char × List Char) :=
    match List.splitOn '.' mantissa with
    | [whole] => some (whole, [])
    | [whole, fraction] => some (whole, fraction)
    | _ => none
  match exponent, parts with
  | some e, some (whole, fraction) =>
      let digits := whole ++ fraction
      if digits.isEmpty || !digits.all Char.isDigit then none
      else
        some
          (Binary64.ofDecimal negative
            { digits := Numeral.decimal digits, exponent := e - (fraction.length : Int) })
  | _, _ => none

def plainReal? (text : List Char) : Option Binary64 :=
  let (negative, body) := Numeral.takeSign text
  match unboundedWords.lookup (String.ofList (body.map Char.toLower)) with
  | some (.infinite _) => some (.infinite negative)
  | some other => some other
  | none => decimal? negative body

/-- The number that a text writes, with blanks around it or with underscores inside. -/
def real? (text : List Char) : Option Binary64 :=
  (plainReal? (trimNumber text)).or ((withoutGaps? text).bind plainReal?)

end NumberText
end Joinery
