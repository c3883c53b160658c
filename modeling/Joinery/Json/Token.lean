import Joinery.Text.Numeral
import Joinery.Value.Basic

/-!
# Tokens of JSON

## From characters to tokens

A JSON text is a sequence of brackets, commas, colons and scalars with blanks
between them.  `tokens` reads such a sequence and refuses every text that holds
anything else: a malformed number, an escape that is not known, half of a
surrogate pair, a control character inside a string.
-/

namespace Joinery
namespace Json

inductive Token where
  | listOpen
  | listClose
  | mappingOpen
  | mappingClose
  | comma
  | colon
  | scalar (value : Value)
deriving Repr

/-- How integers that need more than 64 bits are read. -/
inductive WideIntegers where
  /-- as numbers of double precision -/
  | rounded
  /-- exactly -/
  | exact
deriving DecidableEq, Repr

def isSpace (c : Char) : Bool :=
  c == ' ' || c == '\t' || c == '\n' || c == '\r'

def escaped? : Char -> Option Char
  | '"' => some '"'
  | '\\' => some '\\'
  | '/' => some '/'
  | 'b' => some '\x08'
  | 'f' => some '\x0c'
  | 'n' => some '\n'
  | 'r' => some '\r'
  | 't' => some '\t'
  | _ => none

def surrogatePair? (high low : Nat) : Option Char :=
  if 0xD800 ≤ high && high < 0xDC00 && 0xDC00 ≤ low && low < 0xE000 then
    some (Char.ofNat (0x10000 + (high - 0xD800) * 0x400 + (low - 0xDC00)))
  else none

/-- The character with a code below 65536, unless the code is half of a pair. -/
def basicChar? (code : Nat) : Option Char :=
  if 0xD800 ≤ code && code < 0xE000 then none else some (Char.ofNat code)

def stringBody : List Char -> Option (List Char × List Char)
  | [] => none
  | '"' :: rest => some ([], rest)
  | '\\' :: 'u' :: a :: b :: c :: d :: '\\' :: 'u' :: e :: f :: g :: h :: rest =>
      match Numeral.valueIn? 16 [a, b, c, d], Numeral.valueIn? 16 [e, f, g, h] with
      | some high, some low =>
          match surrogatePair? high low, basicChar? high with
          | some pair, _ => (stringBody rest).map fun body => (pair :: body.1, body.2)
          | none, some single =>
              (stringBody ('\\' :: 'u' :: e :: f :: g :: h :: rest)).map fun body =>
                (single :: body.1, body.2)
          | none, none => none
      | _, _ => none
  | '\\' :: 'u' :: a :: b :: c :: d :: rest =>
      match (Numeral.valueIn? 16 [a, b, c, d]).bind basicChar? with
      | some single => (stringBody rest).map fun body => (single :: body.1, body.2)
      | none => none
  | '\\' :: letter :: rest =>
      match escaped? letter with
      | some c => (stringBody rest).map fun body => (c :: body.1, body.2)
      | none => none
  | c :: rest =>
      if c = '\\' || c.toNat < 0x20 then none
      else (stringBody rest).map fun body => (c :: body.1, body.2)

/-- A number's digits before its point: a single zero, or digits that begin with another one. -/
def wholeDigits (text : List Char) : Option (List Char × List Char) :=
  match text with
  | '0' :: rest => some (['0'], rest)
  | _ =>
      let digits := text.takeWhile Char.isDigit
      if digits.isEmpty then none else some (digits, text.dropWhile Char.isDigit)

def fractionDigits (text : List Char) : Option (Option (List Char) × List Char) :=
  match text with
  | '.' :: rest =>
      let digits := rest.takeWhile Char.isDigit
      if digits.isEmpty then none else some (some digits, rest.dropWhile Char.isDigit)
  | _ => some (none, text)

def exponentPart (text : List Char) : Option (Option Int × List Char) :=
  let power (negative : Bool) (rest : List Char) : Option (Option Int × List Char) :=
    let digits := rest.takeWhile Char.isDigit
    if digits.isEmpty then none
    else
      some (some (Numeral.signed negative (Numeral.decimal digits)), rest.dropWhile Char.isDigit)
  let signed (rest : List Char) : Option (Option Int × List Char) :=
    let (negative, rest) := Numeral.takeSign rest
    power negative rest
  match text with
  | 'e' :: rest => signed rest
  | 'E' :: rest => signed rest
  | _ => some (none, text)

def integer? (wide : WideIntegers) (negative : Bool) (value : Nat) : Option Value :=
  let i := Numeral.signed negative value
  if wide = .exact || Numeral.fits i then some (.int i)
  else
    let rounded := Binary64.nearest negative value 1
    if rounded.isFinite then some (.real rounded) else none

def number (wide : WideIntegers) (text : List Char) : Option (Value × List Char) :=
  let negative := text.head? == some '-'
  let unsigned := if negative then text.drop 1 else text
  match wholeDigits unsigned with
  | none => none
  | some (whole, afterWhole) =>
      match fractionDigits afterWhole with
      | none => none
      | some (fraction, afterFraction) =>
          match exponentPart afterFraction with
          | none => none
          | some (exponent, rest) =>
              if fraction.isNone && exponent.isNone then
                (integer? wide negative (Numeral.decimal whole)).map fun v => (v, rest)
              else
                let part := fraction.getD []
                let read := Binary64.ofDecimal negative
                  { digits := Numeral.decimal (whole ++ part)
                    exponent := exponent.getD 0 - (part.length : Int) }
                if read.isFinite then some (.real read, rest) else none

def token (wide : WideIntegers) : List Char -> Option (Token × List Char)
  | '[' :: rest => some (.listOpen, rest)
  | ']' :: rest => some (.listClose, rest)
  | '{' :: rest => some (.mappingOpen, rest)
  | '}' :: rest => some (.mappingClose, rest)
  | ',' :: rest => some (.comma, rest)
  | ':' :: rest => some (.colon, rest)
  | 'n' :: 'u' :: 'l' :: 'l' :: rest => some (.scalar .null, rest)
  | 't' :: 'r' :: 'u' :: 'e' :: rest => some (.scalar (.bool true), rest)
  | 'f' :: 'a' :: 'l' :: 's' :: 'e' :: rest => some (.scalar (.bool false), rest)
  | '"' :: rest =>
      (stringBody rest).map fun body => (.scalar (.text (String.ofList body.1)), body.2)
  | text => (number wide text).map fun read => (.scalar read.1, read.2)

def tokensWithin (wide : WideIntegers) : Nat -> List Char -> Option (List Token)
  | 0, _ => none
  | fuel + 1, text =>
      match text.dropWhile isSpace with
      | [] => some []
      | c :: rest =>
          match token wide (c :: rest) with
          | none => none
          | some (first, after) => (tokensWithin wide fuel after).map (first :: ·)

def tokens (wide : WideIntegers) (text : List Char) : Option (List Token) :=
  tokensWithin wide (text.length + 1) text

end Json
end Joinery
