import Joinery.Text.Letter
import Joinery.Text.Numeral
import Joinery.Yaml.Folding

/-!
# Scalars in quotes

## Escapes

In single quotes only the quote itself is written in another way, as two of them.  In
double quotes a backslash begins an escape.  An escape can name half of a pair of
units, so what stands in quotes is a list of letters.
-/

namespace Joinery
namespace Yaml

inductive Quote where
  | single
  | double
deriving DecidableEq, Repr

namespace Quote

def char : Quote -> Char
  | .single => '\''
  | .double => '"'

end Quote

def escapes : List (Char × Char) :=
  [('0', '\x00'), ('a', '\x07'), ('b', '\x08'), ('t', '\t'), ('\t', '\t'), ('n', '\n'),
    ('v', '\x0b'), ('f', '\x0c'), ('r', '\r'), ('e', '\x1b'), (' ', ' '), ('"', '"'),
    ('\\', '\\'), ('/', '/'), ('N', '\x85'), ('_', '\xa0'), ('L', '\u2028'), ('P', '\u2029')]

def codeLengths : List (Char × Nat) :=
  [('x', 2), ('u', 4), ('U', 8)]

def letterOf (code : Nat) : Except Fault Letter :=
  if 0x7fffffff < code then .error .wideCode
  else if 0x10ffff < code then .error .noCharacter
  else .ok (.ofCode code)

def emptyQuotedLines : Nat -> Place -> Except Fault (List Char × Place)
  | 0, p => .ok ([], p)
  | fuel + 1, p =>
      if p.atDocumentMark then .error .malformed
      else
        let p := (p.run isGap).2
        match p.lineBreak? with
        | none => .ok ([], p)
        | some (c, q) => do
            let (others, r) <- emptyQuotedLines fuel q
            return (c :: others, r)

def quotedGap (p : Place) : Except Fault (List Char × Place) :=
  let (spaces, q) := p.run isGap
  match q.peek, q.lineBreak? with
  | none, _ => .error .unfinished
  | some _, none => .ok (spaces, q)
  | some _, some (c, q) => do
      let (others, r) <- emptyQuotedLines (q.rest.length + 1) q
      return (folded c others, r)

def escapeAt (p : Place) : Except Fault (Letters × Place) :=
  match p.peek with
  | none => .error .unfinished
  | some c =>
      match escapes.lookup c, codeLengths.lookup c with
      | some letter, _ => .ok ([.char letter], p.next)
      | none, some length =>
          let digits := p.next.rest.take length
          match Numeral.valueIn? 16 digits with
          | none => .error .malformed
          | some code =>
              if digits.length < length then .error .malformed
              else do
                let letter <- letterOf code
                return ([letter], p.next.skip length)
      | none, none =>
          match p.lineBreak? with
          | none => .error .malformed
          | some (_, q) => do
              let (ends, r) <- emptyQuotedLines (q.rest.length + 1) q
              return (.ofText ends, r)

def quotedLetters (quote : Quote) : Nat -> Place -> Except Fault (Letters × Place)
  | 0, _ => .error .malformed
  | fuel + 1, p =>
      match p.peek with
      | none => .error .unfinished
      | some c =>
          if isGap c || isBreak c then do
            let (gap, q) <- quotedGap p
            let (letters, r) <- quotedLetters quote fuel q
            return (.ofText gap ++ letters, r)
          else if c = quote.char then
            if quote = .single && p.look 1 == some '\'' then do
              let (letters, r) <- quotedLetters quote fuel (p.skip 2)
              return (.char '\'' :: letters, r)
            else .ok ([], p.next)
          else if quote = .double && c == '\\' then do
            let (escaped, q) <- escapeAt p.next
            let (letters, r) <- quotedLetters quote fuel q
            return (escaped ++ letters, r)
          else do
            let (letters, r) <- quotedLetters quote fuel p.next
            return (.char c :: letters, r)

def quotedAt (quote : Quote) (p : Place) : Except Fault (Letters × Place) :=
  quotedLetters quote (p.rest.length + 1) p.next

end Yaml
end Joinery
