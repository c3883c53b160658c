import Joinery.Text.Matching
import Joinery.Text.Numeral
import Joinery.Yaml.Fault

/-!
# Written dates and points in time

## Their form and their range

A date is written as a year, a month and a day; a point in time has hours, minutes and
seconds after it, and sometimes a zone.  The form is checked before the range: the
thirtieth of February has the form of a date and is none.
-/

namespace Joinery
namespace Yaml
namespace MomentText

open Text Matcher

def digits : Nat -> Matcher (List Char)
  | 0 => give []
  | n + 1 => do
      let c <- one Char.isDigit
      let rest <- digits n
      return c :: rest

def oneOrTwo : Matcher (List Char) :=
  orElse (digits 2) (digits 1)

def isGap (c : Char) : Bool :=
  c == ' ' || c == '\t'

/-- The digits of a second after the point, as millionths; later ones are cut off. -/
def millionths (fraction : List Char) : Nat :=
  Numeral.decimal ((fraction ++ List.replicate 6 '0').take 6)

def zone : Matcher Zone :=
  orElse
    (do
      let _ <- one fun c => c == 'Z'
      return { isBehind := false, minutes := 0 })
    (do
      let sign <- one fun c => c == '+' || c == '-'
      let hours <- oneOrTwo
      let minutes <- optional do
        let _ <- one fun c => c == ':'
        digits 2
      pure
        { isBehind := sign == '-'
          minutes := 60 * Numeral.decimal hours + Numeral.decimal (minutes.getD []) })

def clockText : Matcher Clock := do
  let _ <- orElse (do let _ <- one fun c => c == 'T' || c == 't') (do let _ <- stretch1 isGap)
  let hour <- oneOrTwo
  let _ <- one fun c => c == ':'
  let minute <- digits 2
  let _ <- one fun c => c == ':'
  let second <- digits 2
  let fraction <- optional do
    let _ <- one fun c => c == '.'
    stretch Char.isDigit
  let zone <- optional do
    let _ <- stretch isGap
    zone
  pure
    { hour := Numeral.decimal hour
      minute := Numeral.decimal minute
      second := Numeral.decimal second
      microsecond := millionths (fraction.getD [])
      zone := zone }

structure Written where
  moment : Moment
  /-- month and day have two digits each -/
  isPadded : Bool
deriving DecidableEq, Repr

def momentText : Matcher Written := do
  let year <- digits 4
  let _ <- one fun c => c == '-'
  let month <- oneOrTwo
  let _ <- one fun c => c == '-'
  let day <- oneOrTwo
  let clock <- optional clockText
  textEnd
  pure
    { moment :=
        { year := Numeral.decimal year
          month := Numeral.decimal month
          day := Numeral.decimal day
          clock := clock }
      isPadded := month.length == 2 && day.length == 2 }

def ofText? (text : List Char) : Option Moment :=
  (momentText.first? text).map (·.moment)

/-- A text stands for a moment without saying so; a date alone must be padded. -/
def isPlain (text : List Char) : Bool :=
  (momentText.first? text).any fun m => m.moment.clock.isSome || m.isPadded

/-!
## Ranges
-/

def fault? (m : Moment) : Option Fault :=
  let ofZone (z : Zone) : Option Fault :=
    if 24 * 60 ≤ z.minutes then some (.zoneOutOfRange z) else none
  let ofClock (c : Clock) : Option Fault :=
    if 23 < c.hour then some .hourOutOfRange
    else if 59 < c.minute then some .minuteOutOfRange
    else if 59 < c.second then some .secondOutOfRange
    else none
  let ofDate : Option Fault :=
    if m.year = 0 then some (.yearOutOfRange m.year)
    else if m.month = 0 || 12 < m.month then some .monthOutOfRange
    else if m.day = 0 || Moment.daysIn m.year m.month < m.day then some .dayOutOfRange
    else none
  ((m.clock.bind (·.zone)).bind ofZone).or (ofDate.or (m.clock.bind ofClock))

end MomentText
end Yaml
end Joinery
