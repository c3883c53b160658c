import Joinery.Sorting

/-!
# Numbers of double precision

## Nearest and shortest

A number of double precision is a significand below two to the power 53 and a
power of two.  `nearest` reads a fraction as the number closest to it, with a tie
going to the even significand.  `shortest` goes the other way: it gives the fewest
decimal digits that `nearest` reads back, and of those digits the closest ones.
-/

namespace Joinery

/-- A number of double precision. -/
inductive Binary64 where
  /-- the value is significand times two to the power `exponent` -/
  | finite (negative : Bool) (significand : Nat) (exponent : Int)
  | infinite (negative : Bool)
  | undefined
deriving DecidableEq, Repr

structure Decimal where
  digits : Nat
  exponent : Int
deriving DecidableEq, Repr

namespace Binary64

def leastExponent : Int :=
  -1074

def greatestExponent : Int :=
  971

def significandLimit : Nat :=
  9007199254740992

def scaled (base : Nat) (num den : Nat) (exponent : Int) : Nat × Nat :=
  match exponent with
  | .ofNat k => (num * Nat.pow base k, den)
  | .negSucc k => (num, den * Nat.pow base (k + 1))

def roundHalfEven (num den : Nat) : Nat :=
  let low := num / den
  let twice := 2 * (num % den)
  if twice < den then low
  else if den < twice then low + 1
  else low + low % 2

def nearest (negative : Bool) (num den : Nat) : Binary64 :=
  if num = 0 then .finite negative 0 leastExponent
  else
    let guess : Int := (num.log2 : Int) - (den.log2 : Int) - 52
    let fits (e : Int) : Bool :=
      let (n, d) := scaled 2 num den (-e)
      n < significandLimit * d
    let exponent := max leastExponent (if fits (guess - 1) then guess - 1 else guess)
    let (n, d) := scaled 2 num den (-exponent)
    let significand := roundHalfEven n d
    let (significand, exponent) :=
      if significand = significandLimit then (significandLimit / 2, exponent + 1)
      else (significand, exponent)
    if greatestExponent < exponent then .infinite negative
    else .finite negative significand exponent

/-- The number closest to a decimal; powers of ten out of every range are cut short. -/
def ofDecimal (negative : Bool) (d : Decimal) : Binary64 :=
  if d.digits = 0 then .finite negative 0 leastExponent
  else if 310 < d.exponent then .infinite negative
  else
    let size : Int := (d.digits.log2 : Int)
    if d.exponent + size < -1100 then .finite negative 0 leastExponent
    else
      let (num, den) := scaled 10 d.digits 1 d.exponent
      nearest negative num den

def ofInt (i : Int) : Binary64 :=
  nearest (i < 0) i.natAbs 1

def negated : Binary64 -> Binary64
  | .finite negative significand exponent => .finite (!negative) significand exponent
  | .infinite negative => .infinite (!negative)
  | .undefined => .undefined

/-- The sum of two finite numbers with signs, rounded once; only two negative zeros give one. -/
def sumOf (m n : Bool × Nat × Int) : Binary64 :=
  let fraction (x : Bool × Nat × Int) : Int × Nat :=
    let (num, den) := scaled 2 x.2.1 1 x.2.2
    (if x.1 then -(num : Int) else num, den)
  let (a, b) := fraction m
  let (c, d) := fraction n
  let num := a * (d : Int) + c * (b : Int)
  nearest (if num = 0 then m.1 && n.1 else num < 0) num.natAbs (b * d)

def add : Binary64 -> Binary64 -> Binary64
  | .undefined, _ => .undefined
  | _, .undefined => .undefined
  | .infinite m, .infinite n => if m = n then .infinite m else .undefined
  | .infinite m, _ => .infinite m
  | _, .infinite n => .infinite n
  | .finite m s e, .finite n t f => sumOf (m, s, e) (n, t, f)

def isZero : Binary64 -> Bool
  | .finite _ significand _ => significand == 0
  | _ => false

def mul (x y : Binary64) : Binary64 :=
  match x, y with
  | .undefined, _ => .undefined
  | _, .undefined => .undefined
  | .infinite m, .infinite n => .infinite (m != n)
  | .infinite m, .finite n .. => if y.isZero then .undefined else .infinite (m != n)
  | .finite m .., .infinite n => if x.isZero then .undefined else .infinite (m != n)
  | .finite m s e, .finite n t f =>
      let (num, den) := scaled 2 (s * t) 1 (e + f)
      nearest (m != n) num den

/-- The number is neither infinite nor undefined. -/
def isFinite : Binary64 -> Bool
  | .finite .. => true
  | _ => false

def toInt? : Binary64 -> Option Int
  | .finite negative significand exponent =>
      let (num, den) := scaled 2 significand 1 exponent
      if num % den = 0 then
        some (if negative then -((num / den : Nat) : Int) else ((num / den : Nat) : Int))
      else none
  | _ => none

/-- The bounds of the fractions that `nearest` reads as a number, in units in which the number
itself is four times its significand.  The lower one is closer below a power of two. -/
def bounds (significand : Nat) (exponent : Int) : Nat × Nat :=
  let below :=
    if significand = significandLimit / 2 && leastExponent < exponent then 1 else 2
  (4 * significand - below, 4 * significand + 2)

def digitCount (n : Nat) : Nat :=
  (Nat.toDigits 10 n).length

/-- The least `k` up to a limit for which a fraction times ten to the power `k` is at least 1. -/
def leadingZeros (num den : Nat) : Nat -> Nat
  | 0 => 0
  | limit + 1 => if den ≤ num then 0 else leadingZeros (num * 10) den limit + 1

/-- The power of ten of the first decimal digit of a positive fraction. -/
def magnitude (num den : Nat) : Int :=
  if den ≤ num then (digitCount (num / den) : Int) - 1
  else -(leadingZeros num den 400 : Int)

/-- The decimals of one grid that lie next to a number and are read back as it. -/
def onGrid (significand : Nat) (exponent : Int) (grid : Int) : List Decimal :=
  let (num, den) := scaled 2 significand 1 exponent
  let (gnum, gden) := scaled 10 num den (-grid)
  let low := gnum / gden
  let (lower, upper) := bounds significand exponent
  let inside (k : Nat) : Bool :=
    let (a, b) := scaled 10 k 1 grid
    let (c, d) := scaled 2 a b (2 - exponent)
    if significand % 2 = 0 then lower * d ≤ c && c ≤ upper * d
    else lower * d < c && c < upper * d
  let near := [low, low + 1].filter inside
  let distance (k : Nat) : Nat :=
    if k * gden ≤ gnum then gnum - k * gden else k * gden - gnum
  let sorted := sortBy (fun a b => distance a ≤ distance b) near
  sorted.map fun k => { digits := k, exponent := grid }

def withoutZeros (d : Decimal) : Nat -> Decimal
  | 0 => d
  | fuel + 1 =>
      if d.digits % 10 = 0 then
        withoutZeros { digits := d.digits / 10, exponent := d.exponent + 1 } fuel
      else d

/-- The shortest decimal that is read back as a positive number, the closest of these. -/
def shortest (significand : Nat) (exponent : Int) : Decimal :=
  let (num, den) := scaled 2 significand 1 exponent
  let top := magnitude num den
  let grids := (List.range 17).map fun k : Nat => top - (k : Int)
  match grids.findSome? fun grid => (onGrid significand exponent grid).head? with
  | some d => withoutZeros d (digitCount d.digits)
  | none => { digits := significand, exponent := 0 }

/-- How a number is written: which powers of ten stand without an exponent, and its width. -/
structure Style where
  least : Int
  greatest : Int
  exponentWidth : Nat
deriving DecidableEq, Repr

def padded (width : Nat) (digits : List Char) : List Char :=
  List.replicate (width - digits.length) '0' ++ digits

def writeDecimal (style : Style) (d : Decimal) : String :=
  let digits := Nat.toDigits 10 d.digits
  let top := d.exponent + (digits.length : Int) - 1
  if style.least ≤ top && top ≤ style.greatest then
    if 0 ≤ d.exponent then
      String.ofList (digits ++ List.replicate d.exponent.toNat '0') ++ ".0"
    else if 0 ≤ top then
      let whole := (top + 1).toNat
      String.ofList (digits.take whole) ++ "." ++ String.ofList (digits.drop whole)
    else
      "0." ++ String.ofList (List.replicate (-top - 1).toNat '0' ++ digits)
  else
    let fraction := digits.drop 1
    let mark := if fraction.isEmpty then "" else "." ++ String.ofList fraction
    let sign := if top < 0 then "-" else "+"
    String.ofList (digits.take 1) ++ mark ++ "e" ++ sign ++
      String.ofList (padded style.exponentWidth (Nat.toDigits 10 top.natAbs))

def write (style : Style) : Binary64 -> String
  | .finite negative significand exponent =>
      let sign := if negative then "-" else ""
      if significand = 0 then sign ++ "0.0"
      else sign ++ writeDecimal style (shortest significand exponent)
  | .infinite negative => if negative then "-inf" else "inf"
  | .undefined => "nan"

end Binary64
end Joinery
