/-!
# Dates and points in time

## Days, clocks and zones

A moment is a date, or a date with a time of that day.  The time may have a zone, and
then it stands for an instant: two moments with zones are the same if their instants
are, however far their clocks are apart.
-/

namespace Joinery

/-- How far a zone is ahead of the common time, or behind it, in minutes. -/
structure Zone where
  isBehind : Bool
  minutes : Nat
deriving DecidableEq, Repr

structure Clock where
  hour : Nat
  minute : Nat
  second : Nat
  microsecond : Nat
  zone : Option Zone
deriving DecidableEq, Repr

structure Moment where
  year : Nat
  month : Nat
  day : Nat
  clock : Option Clock
deriving DecidableEq, Repr

namespace Zone

def offset (z : Zone) : Int :=
  if z.isBehind then -(z.minutes : Int) else z.minutes

def display (z : Zone) : String :=
  let days := z.offset / 1440
  let seconds := 60 * (z.offset % 1440)
  let parts :=
    (if days = 0 then [] else ["days=" ++ toString days]) ++
      (if seconds = 0 then [] else ["seconds=" ++ toString seconds])
  "datetime.timedelta(" ++ ", ".intercalate (if parts.isEmpty then ["0"] else parts) ++ ")"

end Zone

namespace Moment

def isLeapYear (year : Nat) : Bool :=
  year % 4 == 0 && (year % 100 != 0 || year % 400 == 0)

def daysIn (year month : Nat) : Nat :=
  if month = 2 then (if isLeapYear year then 29 else 28)
  else if month = 4 || month = 6 || month = 9 || month = 11 then 30
  else 31

def dayNumber (m : Moment) : Nat :=
  let years := m.year - 1
  let months := (List.range (m.month - 1)).map fun before => daysIn m.year (before + 1)
  365 * years + years / 4 - years / 100 + years / 400 + months.foldl (· + ·) 0 + m.day

def instant (m : Moment) (c : Clock) (z : Zone) : Int :=
  let minutes : Int := 1440 * (m.dayNumber : Int) + 60 * (c.hour : Int) + c.minute - z.offset
  1000000 * (60 * minutes + c.second) + c.microsecond

def isSame (m n : Moment) : Bool :=
  match m.clock, n.clock with
  | some c, some d =>
      match c.zone, d.zone with
      | some z, some w => m.instant c z == n.instant d w
      | _, _ => m == n
  | _, _ => m == n

def display (m : Moment) : String :=
  let date := [m.year, m.month, m.day]
  match m.clock with
  | none => "datetime.date(" ++ ", ".intercalate (date.map toString) ++ ")"
  | some c =>
      let small :=
        if c.microsecond ≠ 0 then [c.second, c.microsecond]
        else if c.second ≠ 0 then [c.second]
        else []
      let showZone (z : Zone) : String :=
        if z.minutes = 0 then "datetime.timezone.utc"
        else "datetime.timezone(" ++ z.display ++ ")"
      let zone := (c.zone.map fun z => "tzinfo=" ++ showZone z).toList
      "datetime.datetime(" ++
        ", ".intercalate ((date ++ [c.hour, c.minute] ++ small).map toString ++ zone) ++ ")"

end Moment
end Joinery
