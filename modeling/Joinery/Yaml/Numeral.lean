import Joinery.Text.DecimalDigit
import Joinery.Text.SmallLetter
import Joinery.Value.Display
import Joinery.Value.NumberText
import Joinery.Yaml.Fault

/-!
# Numbers of scalars

## Digits of all scripts, bases and places of sixty

The digits of a number may be those of any script.  A zero in front of an integer tells
its base, and colons between places mean base sixty.  The places of a real are added
up from the right, and each product and each sum is rounded.
-/

namespace Joinery
namespace Yaml

def withoutGaps (letters : Letters) : Letters :=
  letters.filter fun l => l != .char '_'

def takeSign : Letters -> Bool × Letters
  | .char '-' :: rest => (true, rest)
  | .char '+' :: rest => (false, rest)
  | rest => (false, rest)

/-- The letters with a plain digit for each digit and a space for each blank; what is neither
becomes a question mark.  Letters of ASCII alone are left as they are. -/
def plainDigits (letters : Letters) : List Char :=
  let plain (c : Char) : Char :=
    if c.toNat < 127 then c
    else if Text.isBlank c then ' '
    else ((Text.decimalDigit? c).map Nat.digitChar).getD '?'
  let isAscii := letters.all (Letter.isChar fun c => c.toNat < 128)
  letters.map fun l =>
    match l with
    | .char c => if isAscii then c else plain c
    | .half _ => '?'

def isPlainBlank (c : Char) : Bool :=
  c == ' ' || (0x09 ≤ c.toNat && c.toNat ≤ 0x0D)

/-!
## Integers
-/

def baseMark? (base : Nat) : Option Char :=
  [(2, 'b'), (8, 'o'), (16, 'x')].lookup base

def withoutBaseMark (base : Nat) (text : List Char) : List Char :=
  match text with
  | '0' :: mark :: rest => if baseMark? base = some mark.toLower then rest else text
  | _ => text

def isDigitOf (base : Nat) (c : Char) : Bool :=
  (Numeral.digit? c).any (· < base)

def shownLimit : Nat :=
  200

def integerIn (base : Nat) (letters : Letters) : Except Fault Int :=
  let start := (plainDigits letters).dropWhile isPlainBlank
  let (negative, unsigned) := Numeral.takeSign start
  let body := withoutBaseMark base unsigned
  let digits := body.takeWhile (isDigitOf base)
  let after := (body.drop digits.length).dropWhile isPlainBlank
  match Numeral.valueIn? base digits with
  | some value =>
      if base = 10 && NumberText.lengthLimit < digits.length then
        .error (.tooManyDigits digits.length)
      else if digits.isEmpty || !after.isEmpty then fault
      else .ok (Numeral.signed negative value)
  | none => fault
where
  fault : Except Fault Int :=
    .error (.noInteger base (String.ofList ((Value.quotedLetters letters).toList.take shownLimit)))

/-- The number whose places are worth sixty times as much as their right neighbours. -/
def sexagesimal (places : List Int) : Int :=
  places.foldl (fun value place => 60 * value + place) 0

/-- The integer of a scalar: a letter after a zero, or a zero alone, tells its base. -/
def integerOf (letters : Letters) : Except Fault Int := do
  let (negative, body) := takeSign (withoutGaps letters)
  let value <-
    match body with
    | [] => .error .noDigits
    | [.char '0'] => pure 0
    | .char '0' :: .char 'b' :: digits => integerIn 2 digits
    | .char '0' :: .char 'x' :: digits => integerIn 16 digits
    | .char '0' :: digits => integerIn 8 (.char '0' :: digits)
    | body =>
        if body.contains (.char ':') then
          sexagesimal <$> (List.splitOn (.char ':') body).mapM (integerIn 10)
        else integerIn 10 body
  return if negative then -value else value

/-!
## Reals
-/

def realIn (letters : Letters) : Except Fault Binary64 :=
  let text := Text.dropEnd isPlainBlank (Text.dropStart isPlainBlank (plainDigits letters))
  match NumberText.plainReal? text with
  | some r => .ok r
  | none => .error (.noFraction (Value.quotedLetters letters))

def sumOfPlaces (sum : Binary64) (weight : Nat) : List Binary64 -> Except Fault Binary64
  | [] => .ok sum
  | place :: rest =>
      match Binary64.ofInt weight with
      | .infinite _ => .error .placeTooHigh
      | w => sumOfPlaces (sum.add (place.mul w)) (60 * weight) rest

def realZero : Binary64 :=
  .finite false 0 Binary64.leastExponent

def realBody (letters : Letters) : Bool × Letters :=
  takeSign (Text.small (withoutGaps letters))

def realOf (letters : Letters) : Except Fault Binary64 := do
  if (withoutGaps letters).isEmpty then .error .noDigits
  else
    let (negative, body) := realBody letters
    if body = .ofText ".nan".toList then return .undefined
    else
      let value <-
        if body = .ofText ".inf".toList then pure (.infinite false)
        else if body.contains (.char ':') then do
          let places <- (List.splitOn (.char ':') body).mapM realIn
          sumOfPlaces realZero 1 places.reverse
        else realIn body
      return if negative then value.negated else value

end Yaml
end Joinery
