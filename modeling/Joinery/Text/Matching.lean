import Joinery.Text.Blank
import Joinery.Text.WordChar

/-!
# Matching text

## Matchers and what they find

A matcher reads text from a cursor on and answers every way in which it can do
so, the preferred way first.  Sequencing tries the ways of the first matcher in
their order, so that the first answer of a sequence is the one that a reader who
backtracks would settle for.  `findAll` collects the first answers from left to
right, none of them overlapping.
-/

namespace Joinery
namespace Text

/-- A place in a text: what has been read, last character first, and what follows. -/
structure Cursor where
  behind : List Char
  ahead : List Char
deriving DecidableEq

namespace Cursor

def start (text : List Char) : Cursor :=
  ⟨[], text⟩

def offset (c : Cursor) : Nat :=
  c.behind.length

def line (c : Cursor) : Nat :=
  c.behind.count '\n' + 1

def atLineStart (c : Cursor) : Bool :=
  match c.behind with
  | [] => true
  | last :: _ => last == '\n'

/-- The longest stretch of characters of a class, and the place after it. -/
def readWhile (p : Char -> Bool) (c : Cursor) : List Char × Cursor :=
  let word := c.ahead.takeWhile p
  (word, ⟨word.reverse ++ c.behind, c.ahead.dropWhile p⟩)

def readLetters : List Char -> Cursor -> Option Cursor
  | [], c => some c
  | letter :: letters, ⟨behind, ahead⟩ =>
      match ahead with
      | [] => none
      | next :: rest =>
          if next = letter then readLetters letters ⟨next :: behind, rest⟩ else none

end Cursor

def Matcher (α : Type) : Type :=
  Cursor -> List (α × Cursor)

namespace Matcher

def give (value : α) : Matcher α :=
  fun c => [(value, c)]

def andThen (m : Matcher α) (next : α -> Matcher β) : Matcher β :=
  fun c => (m c).flatMap fun found => next found.1 found.2

instance : Monad Matcher where
  pure := give
  bind := andThen

def orElse (m n : Matcher α) : Matcher α :=
  fun c => m c ++ n c

def optional (m : Matcher α) : Matcher (Option α) :=
  fun c => (m c).map (fun found => (some found.1, found.2)) ++ [(none, c)]

def first? (m : Matcher α) (text : List Char) : Option α :=
  (m (Cursor.start text)).head?.map (·.1)

/-!
# Reading single pieces

The following matchers read in at most one way.  A stretch of characters is
always read in full: what follows one in a statement never begins with a
character of the same class.
-/

def guard (p : Cursor -> Bool) : Matcher Unit :=
  fun c => if p c then [((), c)] else []

def lineStart : Matcher Unit :=
  guard Cursor.atLineStart

def textEnd : Matcher Unit :=
  guard fun c => c.ahead.isEmpty

def wordEdge : Matcher Unit :=
  guard fun c => isWordEdge c.behind.head? c.ahead.head?

def notNext (stop : Char) : Matcher Unit :=
  guard fun c => c.ahead.head? != some stop

def one (p : Char -> Bool) : Matcher Char :=
  fun c =>
    match c.ahead with
    | [] => []
    | next :: rest => if p next then [(next, ⟨next :: c.behind, rest⟩)] else []

def stretch (p : Char -> Bool) : Matcher (List Char) :=
  fun c => [c.readWhile p]

def stretch1 (p : Char -> Bool) : Matcher (List Char) :=
  fun c =>
    match c.ahead with
    | [] => []
    | next :: _ => if p next then [c.readWhile p] else []

def beginnings (p : Char -> Bool) : Matcher (List Char) :=
  fun c =>
    let word := c.ahead.takeWhile p
    (List.range (word.length + 1)).reverse.map fun size =>
      (word.take size, ⟨(word.take size).reverse ++ c.behind, c.ahead.drop size⟩)

def letters (word : List Char) : Matcher Unit :=
  fun c =>
    match c.readLetters word with
    | none => []
    | some next => [((), next)]

def word (text : String) : Matcher Unit :=
  letters text.toList

def blanks : Matcher Unit := do
  let _ <- stretch isBlank

def blanks1 : Matcher Unit := do
  let _ <- stretch1 isBlank

def someBlanks : Matcher Unit := do
  let _ <- one isBlank
  let _ <- beginnings isBlank

def anyOf : List (Matcher α) -> Matcher α
  | [] => fun _ => []
  | m :: ms => orElse m (anyOf ms)

end Matcher

/-!
# Finding all occurrences
-/

structure Found (α : Type) where
  place : Cursor
  value : α

def findFrom (m : Matcher α) (behind : List Char) (skip : Nat) : List Char -> List (Found α)
  | [] => []
  | c :: rest =>
      match skip with
      | skip + 1 => findFrom m (c :: behind) skip rest
      | 0 =>
          match (m ⟨behind, c :: rest⟩).head? with
          | none => findFrom m (c :: behind) 0 rest
          | some (value, next) =>
              ⟨⟨behind, c :: rest⟩, value⟩ ::
                findFrom m (c :: behind) (rest.length - next.ahead.length) rest

def findAll (m : Matcher α) (text : List Char) : List (Found α) :=
  findFrom m [] 0 text

end Text
end Joinery
