import Joinery.Yaml.Fault
import Joinery.Yaml.Place

/-!
# Scalars over several lines

## Folding

A scalar without quotes, or in quotes, may go on in the next line.  One line end
between two words is read as a space; where empty lines follow, their ends are kept
and the first one is dropped.
-/

namespace Joinery
namespace Yaml

def folded (first : Char) (others : List Char) : List Char :=
  if first = '\n' then (if others.isEmpty then [' '] else others)
  else first :: others

/-!
## Words without quotes
-/

def endsFlowWord (c : Char) : Bool :=
  c == ',' || c == '?' || c == '[' || c == ']' || c == '\x7b' || c == '\x7d'

/-- The characters that make the colon before them a mark, inside brackets and braces. -/
def closesFlowKey (c : Char) : Bool :=
  c == ',' || c == '[' || c == ']' || c == '\x7b' || c == '\x7d'

/-- The word that stands at the start; a colon belongs to it unless it marks a value. -/
def plainWord (inFlow : Bool) : List Char -> List Char
  | [] => []
  | c :: rest =>
      let marksValue :=
        c == ':' && (endsWord rest.head? || (inFlow && rest.head?.any closesFlowKey))
      if endsWord (some c) || marksValue || (inFlow && endsFlowWord c) then []
      else c :: plainWord inFlow rest

/-- What stands between two words: its reading, the place after it, and whether it holds a
line end. -/
structure Gap where
  text : List Char
  place : Place
  crossesLine : Bool
deriving Repr

def emptyLines : Nat -> Place -> Option (List Char) × Place
  | 0, p => (some [], p)
  | fuel + 1, p =>
      let p := p.skipSpaces
      match p.lineBreak? with
      | none => (some [], p)
      | some (c, q) =>
          if q.atDocumentMark then (none, q)
          else
            let (others, r) := emptyLines fuel q
            (others.map fun cs => c :: cs, r)

def gapAt (p : Place) : Gap :=
  let (spaces, q) := p.run fun c => c == ' '
  match q.lineBreak? with
  | none => { text := spaces, place := q, crossesLine := false }
  | some (c, q) =>
      if q.atDocumentMark then { text := [], place := q, crossesLine := true }
      else
        match emptyLines (q.rest.length + 1) q with
        | (none, r) => { text := [], place := r, crossesLine := true }
        | (some others, r) => { text := folded c others, place := r, crossesLine := true }

/-- A scalar without quotes: its text, the place after it and the gap that follows, and whether
that gap holds a line end. -/
structure PlainText where
  text : List Char
  place : Place
  crossesLine : Bool
deriving Repr

def plainWords (inFlow : Bool) (indent : Int) : Nat -> Gap -> PlainText
  | 0, gap => { text := [], place := gap.place, crossesLine := gap.crossesLine }
  | fuel + 1, gap =>
      let p := gap.place
      let word := if p.peek == some '#' then [] else plainWord inFlow p.rest
      if word.isEmpty then { text := [], place := p, crossesLine := gap.crossesLine }
      else
        let after := gapAt (p.skip word.length)
        let ends :=
          after.text.isEmpty || (!inFlow && (after.place.column : Int) ≤ indent)
        if ends then
          { text := gap.text ++ word, place := after.place, crossesLine := after.crossesLine }
        else
          let more := plainWords inFlow indent fuel after
          { more with text := gap.text ++ word ++ more.text }

def plainAt (inFlow : Bool) (indent : Int) (p : Place) : PlainText :=
  plainWords inFlow indent (p.rest.length + 1) { text := [], place := p, crossesLine := false }

end Yaml
end Joinery
