import Joinery.Schema.Fault
import Joinery.Value.Display
import Joinery.Value.NumberText

/-!
# Decoding data

## From values of any shape to values of a type

A decoder gives the value that a piece of data stands for, or all of its faults.
Some kindness is shown: a text of digits stands for an integer, a word such as `yes`
for a truth value, a number without a fraction for an integer.
-/

namespace Joinery

inductive Decoded (α : Type) where
  | value (a : α)
  | faults (list : List Fault)
deriving DecidableEq, Repr

namespace Decoded

def map (f : α -> β) : Decoded α -> Decoded β
  | .value a => .value (f a)
  | .faults list => .faults list

def both (a : Decoded α) (b : Decoded β) : Decoded (α × β) :=
  match a, b with
  | .value x, .value y => .value (x, y)
  | .value _, .faults right => .faults right
  | .faults left, .value _ => .faults left
  | .faults left, .faults right => .faults (left ++ right)

def check (a : Decoded α) (next : α -> Decoded β) : Decoded β :=
  match a with
  | .value x => next x
  | .faults list => .faults list

def fault (kind : FaultKind) : Decoded α :=
  .faults [{ location := [], kind := kind }]

def within (step : Step) : Decoded α -> Decoded α
  | .value a => .value a
  | .faults list => .faults (list.map fun f => { f with location := step :: f.location })

def collect : List (Decoded α) -> Decoded (List α)
  | [] => .value []
  | d :: rest => (both d (collect rest)).map fun found => found.1 :: found.2

instance : Functor Decoded where
  map := map

instance : Applicative Decoded where
  pure := .value
  seq f a := (both f (a ())).map fun found => found.1 found.2

def value? : Decoded α -> Option α
  | .value a => some a
  | .faults _ => none

def toExcept : Decoded α -> Except (List Fault) α
  | .value a => .ok a
  | .faults list => .error list

end Decoded

abbrev Decoder (α : Type) : Type :=
  Value -> Decoded α

namespace Decode

open Decoded

/-!
# Scalars
-/

def utf8? (data : List UInt8) : Option String :=
  String.fromUTF8? (ByteArray.mk data.toArray)

def string : Decoder String
  | .text s => .value s
  | .bytes data =>
      match utf8? data with
      | some s => .value s
      | none => fault .stringEncoding
  | .halves _ => fault .stringEncoding
  | _ => fault .stringType

def nullable (decode : Decoder α) : Decoder (Option α)
  | .null => .value none
  | v => (decode v).map some

def integerOfText (text : List Char) : Decoded Int :=
  match NumberText.readInteger text with
  | .value i => .value i
  | .tooLong => fault .intSize
  | .none => fault .intParsing

/-- Does an integer lie strictly between the ends of the range of 64 bits with a sign?  That range
ends, as a real, at two powers of two. -/
def isInnerSigned (i : Int) : Bool :=
  Numeral.fitsSigned i && i != Numeral.leastSigned

def integerOfReal (r : Binary64) : Decoded Int :=
  match r with
  | .finite .. =>
      match r.toInt? with
      | none => fault .intFraction
      | some i => if isInnerSigned i then .value i else fault .intSize
  | _ => fault .finiteNumber

def integer : Decoder Int
  | .int i => .value i
  | .bool b => .value (if b then 1 else 0)
  | .real r => integerOfReal r
  | .text s => integerOfText s.toList
  | .bytes data =>
      match utf8? data with
      | some s => integerOfText s.toList
      | none => fault .intParsing
  | .halves _ => fault .stringEncoding
  | _ => fault .intType

def atLeast (bound : Int) (decode : Decoder Int) : Decoder Int :=
  fun v => (decode v).check fun i => if bound ≤ i then .value i else fault (.atLeast bound)

def atMost (bound : Int) (decode : Decoder Int) : Decoder Int :=
  fun v => (decode v).check fun i => if i ≤ bound then .value i else fault (.atMost bound)

def truthWords : List (String × Bool) :=
  [("0", false), ("off", false), ("f", false), ("false", false), ("n", false), ("no", false),
    ("1", true), ("on", true), ("t", true), ("true", true), ("y", true), ("yes", true)]

def boolOfText (text : String) : Decoded Bool :=
  match truthWords.lookup (String.ofList (text.toList.map Char.toLower)) with
  | some b => .value b
  | none => fault .boolParsing

/-- Zero and one are truth values; an integer of more than 64 bits is not even tried. -/
def boolOfInt (i : Int) : Decoded Bool :=
  if i = 0 then .value false
  else if i = 1 then .value true
  else if Numeral.fitsSigned i then fault .boolParsing
  else fault .boolType

def bool : Decoder Bool
  | .bool b => .value b
  | .int i => boolOfInt i
  | .real r =>
      match r.toInt? with
      | some i => if isInnerSigned i then boolOfInt i else fault .boolType
      | none => fault .boolType
  | .text s => boolOfText s
  | .bytes data =>
      match utf8? data with
      | some s => boolOfText s
      | none => fault .boolParsing
  | .halves _ => fault .stringEncoding
  | _ => fault .boolType

def realOfText (text : List Char) : Decoded Binary64 :=
  match NumberText.real? text with
  | some r => .value r
  | none => fault .floatParsing

/-- The real closest to an integer, unless the integer lies beyond all reals. -/
def realOfInt (i : Int) : Decoded Binary64 :=
  match Binary64.ofInt i with
  | .infinite _ => fault .floatType
  | r => .value r

def real : Decoder Binary64
  | .real r => .value r
  | .int i => realOfInt i
  | .bool b => .value (Binary64.ofInt (if b then 1 else 0))
  | .text s => realOfText s.toList
  | .bytes data =>
      match utf8? data with
      | some s => realOfText s.toList
      | none => fault .floatParsing
  | .halves _ => fault .stringEncoding
  | _ => fault .floatType

def oneOf (kind : FaultKind) (words : List (String × α)) (word : Option String) : Decoded α :=
  match word.bind fun w => words.lookup w with
  | some a => .value a
  | none => fault kind

def enumeration (words : List (String × α)) : Decoder α :=
  fun v => oneOf (.enumeration (words.map (·.1))) words (string v).value?

def literal (words : List (String × α)) : Decoder α :=
  fun v =>
    let word :=
      match v with
      | .text s => some s
      | _ => none
    oneOf (.literal (words.map (·.1))) words word

/-!
# Lists, mappings and models
-/

def items (decode : Decoder α) (position : Nat) : List Value -> List (Decoded α)
  | [] => []
  | v :: rest => within (.index position) (decode v) :: items decode (position + 1) rest

def list (decode : Decoder α) : Decoder (List α)
  | .list vs => collect (items decode 0 vs)
  | .set vs => collect (items decode 0 vs)
  | _ => fault .listType

def shownInteger (i : Int) : String :=
  let digits := toString i.natAbs
  if NumberText.lengthLimit < digits.length then "<unprintable int object>" else toString i

/-- The characters in the place of half of a pair: one for each byte that would encode it. -/
def halfMark : List Char :=
  List.replicate 3 '\ufffd'

def stepOf : Value -> Step
  | .text s => .key s
  | .halves letters =>
      .key (String.ofList (letters.flatMap fun l => (l.char?.map fun c => [c]).getD halfMark))
  | .int i => if Numeral.fitsSigned i then .index i else .key (shownInteger i)
  | .bool b => .index (if b then 1 else 0)
  | v => .key v.quoted

def entry (decode : Decoder α) (e : Value × Value) : Decoded (String × α) :=
  let step := stepOf e.1
  both (within step (within (.key "[key]") (string e.1))) (within step (decode e.2))

def mappingOf (decode : Decoder α) : Decoder (List (String × α))
  | .mapping entries => collect (entries.map (entry decode))
  | _ => fault .mappingType

abbrev Fields : Type :=
  List (Value × Value)

def required (fields : Fields) (name : String) (decode : Decoder α) : Decoded α :=
  within (.key name)
    (match Value.entry? name fields with
      | some v => decode v
      | none => fault .missing)

def defaulted (fields : Fields) (name : String) (default : α) (decode : Decoder α) : Decoded α :=
  match Value.entry? name fields with
  | some v => within (.key name) (decode v)
  | none => .value default

def model (name : String) (fields : Fields -> Decoded α) : Decoder α
  | .mapping entries => fields entries
  | _ => fault (.modelType name)

end Decode
end Joinery
