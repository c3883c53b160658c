import Joinery.Value.Moment

/-!
# What can be wrong with a YAML text

## Faults of the form and faults of a value

A text that breaks the rules of the language, or that names a type no one knows, is
malformed.  The other faults come from scalars whose form is right and whose value
does not exist, such as a thirteenth month.
-/

namespace Joinery
namespace Yaml

inductive Fault where
  | malformed
  /-- the text ends inside of a scalar -/
  | unfinished
  /-- the text can be read up to some place only -/
  | brokenOff
  /-- an escape names a code above the last character -/
  | noCharacter
  /-- an escape names a code of more than 31 bits -/
  | wideCode
  /-- digits of a base were expected -/
  | noInteger (base : Nat) (shown : String)
  | tooManyDigits (count : Nat)
  | noFraction (shown : String)
  /-- a place of a number in base sixty is worth more than the greatest real -/
  | placeTooHigh
  /-- a number was expected where nothing stands -/
  | noDigits
  | noTruthValue (shown : String)
  | noDate
  /-- a moment is written as a mapping, the text of which is no text of its own -/
  | notScalar
  /-- a scalar is written as a mapping that refers to itself -/
  | endless
  | yearOutOfRange (year : Nat)
  | monthOutOfRange
  | dayOutOfRange
  | hourOutOfRange
  | minuteOutOfRange
  | secondOutOfRange
  | zoneOutOfRange (zone : Zone)
deriving DecidableEq, Repr

namespace Fault

/-- What is said about a fault of a value; what is wrong with the form is named by the reader. -/
def message : Fault -> String
  | .malformed => ""
  | .unfinished => ""
  | .brokenOff => ""
  | .noCharacter => "chr() arg not in range(0x110000)"
  | .wideCode => "Python int too large to convert to C int"
  | .noInteger base shown =>
      "invalid literal for int() with base " ++ toString base ++ ": " ++ shown
  | .tooManyDigits count =>
      "Exceeds the limit (4300 digits) for integer string conversion: value has " ++
        toString count ++ " digits; use sys.set_int_max_str_digits() to increase the limit"
  | .noFraction shown => "could not convert string to float: " ++ shown
  | .placeTooHigh => "int too large to convert to float"
  | .noDigits => "string index out of range"
  | .noTruthValue shown => shown
  | .noDate => "'NoneType' object has no attribute 'groupdict'"
  | .notScalar => "expected string or bytes-like object, got 'list'"
  | .endless => "maximum recursion depth exceeded"
  | .yearOutOfRange year => "year " ++ toString year ++ " is out of range"
  | .monthOutOfRange => "month must be in 1..12"
  | .dayOutOfRange => "day is out of range for month"
  | .hourOutOfRange => "hour must be in 0..23"
  | .minuteOutOfRange => "minute must be in 0..59"
  | .secondOutOfRange => "second must be in 0..59"
  | .zoneOutOfRange zone =>
      "offset must be a timedelta strictly between -timedelta(hours=24) and " ++
        "timedelta(hours=24), not " ++ zone.display ++ "."

end Fault
end Yaml
end Joinery
