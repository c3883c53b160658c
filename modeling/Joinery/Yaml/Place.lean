/-!
# Places in a text

## Lines, columns and runs

The layout of a text carries meaning, so a place in it knows its line and its column
beside the characters that are left.  Runs of characters are read with `run`.
-/

namespace Joinery
namespace Yaml

def isBreak (c : Char) : Bool :=
  c == '\n' || c == '\x85' || c == '\u2028' || c == '\u2029'

def isGap (c : Char) : Bool :=
  c == ' ' || c == '\t'

def byteOrderMark : Char :=
  '\ufeff'

def endsLine : Option Char -> Bool
  | none => true
  | some c => isBreak c

def endsName : Option Char -> Bool
  | some ' ' => true
  | c => endsLine c

def endsWord : Option Char -> Bool
  | some '\t' => true
  | c => endsName c

/-- A place in a text: what is left, where it stands, and how much lies before it. -/
structure Place where
  rest : List Char
  line : Nat
  column : Nat
  passed : Nat
deriving Repr

namespace Place

def start (text : List Char) : Place :=
  { rest := text, line := 0, column := 0, passed := 0 }

def peek (p : Place) : Option Char :=
  p.rest.head?

def look (n : Nat) (p : Place) : Option Char :=
  p.rest[n]?

def next (p : Place) : Place :=
  match p.rest with
  | [] => p
  | c :: rest =>
      if isBreak c then
        { rest := rest, line := p.line + 1, column := 0, passed := p.passed + 1 }
      else
        { rest := rest
          line := p.line
          column := if c = byteOrderMark then p.column else p.column + 1
          passed := p.passed + 1 }

def skip : Nat -> Place -> Place
  | 0, p => p
  | n + 1, p => skip n p.next

def run (keep : Char -> Bool) (p : Place) : List Char × Place :=
  let text := p.rest.takeWhile keep
  (text, p.skip text.length)

def skipSpaces (p : Place) : Place :=
  (p.run fun c => c == ' ').2

def skipLine (p : Place) : Place :=
  (p.run fun c => !isBreak c).2

def lineBreak? (p : Place) : Option (Char × Place) :=
  match p.rest with
  | c :: _ =>
      if isBreak c then some (if c = '\x85' then '\n' else c, p.next) else none
  | [] => none

def skipBreak (p : Place) : Place :=
  match p.lineBreak? with
  | some (_, q) => q
  | none => p

def atMark (mark : List Char) (p : Place) : Bool :=
  p.rest.take 3 == mark && endsWord (p.look 3)

def atDocumentMark (p : Place) : Bool :=
  p.atMark ['-', '-', '-'] || p.atMark ['.', '.', '.']

end Place
end Yaml
end Joinery
