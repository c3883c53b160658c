import Joinery.Yaml.Token

/-!
# Layout

## Indentation and keys

Outside of brackets and braces the columns of a text open and close its lists and
mappings.  A key is known as one only when the colon after it is reached.  Until then
the place where it may have begun is remembered, and its marks are put before it later.
-/

namespace Joinery
namespace Yaml

structure PossibleKey where
  /-- the number of tokens before it -/
  position : Nat
  /-- nothing but a key can stand there -/
  required : Bool
  line : Nat
  column : Nat
  passed : Nat
deriving Repr

def keyLimit : Nat :=
  1024

structure Layout where
  place : Place
  /-- the tokens so far, last one first -/
  tokens : List Token := []
  /-- the columns of the open lists and mappings, innermost first -/
  indents : List Nat := []
  /-- the possible key outside of all brackets and braces -/
  outerKey : Option PossibleKey := none
  /-- the possible keys inside of those that are open, innermost first -/
  flowKeys : List (Option PossibleKey) := []
  keyAllowed : Bool := true
  isFinished : Bool := false
deriving Repr

namespace Layout

def start (text : List Char) : Layout :=
  let p := Place.start text
  { place := if p.peek == some byteOrderMark then p.next else p }

def inFlow (s : Layout) : Bool :=
  !s.flowKeys.isEmpty

def indent (s : Layout) : Int :=
  match s.indents with
  | [] => -1
  | column :: _ => column

def currentKey (s : Layout) : Option PossibleKey :=
  match s.flowKeys with
  | [] => s.outerKey
  | key :: _ => key

def setKey (s : Layout) (key : Option PossibleKey) : Layout :=
  match s.flowKeys with
  | [] => { s with outerKey := key }
  | _ :: outer => { s with flowKeys := key :: outer }

def emit (s : Layout) (token : Token) (after : Place) : Layout :=
  { s with tokens := token :: s.tokens, place := after }

def insert (s : Layout) (position : Nat) (token : Token) : Layout :=
  let later := s.tokens.length - position
  { s with tokens := s.tokens.take later ++ token :: s.tokens.drop later }

/-!
## Possible keys
-/

/-- The possible key, unless a line end or too many characters lie after it. -/
def freshKey (p : Place) : Option PossibleKey -> Except Fault (Option PossibleKey)
  | none => .ok none
  | some key =>
      if key.line ≠ p.line || keyLimit < p.passed - key.passed then
        if key.required then .error .malformed else .ok none
      else .ok (some key)

def dropStaleKeys (s : Layout) : Except Fault Layout := do
  let outer <- freshKey s.place s.outerKey
  let flow <- s.flowKeys.mapM (freshKey s.place)
  return { s with outerKey := outer, flowKeys := flow }

def forgetKey (s : Layout) : Except Fault Layout :=
  if s.currentKey.any (·.required) then .error .malformed else .ok (s.setKey none)

def rememberKey (s : Layout) : Except Fault Layout :=
  if !s.keyAllowed then .ok s
  else do
    let s <- s.forgetKey
    return s.setKey (some
      { position := s.tokens.length
        required := !s.inFlow && s.indent == s.place.column
        line := s.place.line
        column := s.place.column
        passed := s.place.passed })

/-!
## Indentation
-/

def unwind (s : Layout) (column : Int) : Layout :=
  if s.inFlow then s
  else
    let closed := (s.indents.takeWhile fun i : Nat => decide (column < (i : Int))).length
    { s with
      indents := s.indents.drop closed
      tokens := List.replicate closed .blockEnd ++ s.tokens }

def openBlock (s : Layout) (token : Token) : Layout :=
  if s.inFlow || (s.place.column : Int) ≤ s.indent then s
  else { s with indents := s.place.column :: s.indents, tokens := token :: s.tokens }

def nextPlace (inFlow : Bool) : Nat -> Place -> Bool -> Place × Bool
  | 0, p, allowed => (p, allowed)
  | fuel + 1, p, allowed =>
      let p := p.skipSpaces
      let p := if p.peek == some '#' then p.skipLine else p
      match p.lineBreak? with
      | some (_, q) => nextPlace inFlow fuel q (allowed || !inFlow)
      | none => (p, allowed)

def toToken (s : Layout) : Layout :=
  let (p, allowed) := nextPlace s.inFlow (s.place.rest.length + 1) s.place s.keyAllowed
  { s with place := p, keyAllowed := allowed }

/-!
## Marks
-/

def finish (s : Layout) : Except Fault Layout := do
  let s <- (s.unwind (-1)).forgetKey
  return { s with keyAllowed := false, isFinished := true }

def putOutermost (s : Layout) (token : Token) (after : Place) : Except Fault Layout := do
  let s <- (s.unwind (-1)).forgetKey
  return { s with keyAllowed := false }.emit token after

def openFlow (s : Layout) (token : Token) : Except Fault Layout := do
  let s <- s.rememberKey
  return { s with flowKeys := none :: s.flowKeys, keyAllowed := true }.emit token s.place.next

def closeFlow (s : Layout) (token : Token) : Except Fault Layout := do
  let s <- s.forgetKey
  match s.flowKeys with
  | [] => .error .malformed
  | _ :: outer =>
      return { s with flowKeys := outer, keyAllowed := false }.emit token s.place.next

/-- A mark at which a key could stand outside of brackets and braces. -/
def putEntry (s : Layout) (block token : Token) (keyAllowed : Bool) : Except Fault Layout :=
  if !s.inFlow && !s.keyAllowed then .error .malformed
  else do
    let s <- (s.openBlock block).forgetKey
    return { s with keyAllowed := keyAllowed }.emit token s.place.next

def putValue (s : Layout) : Except Fault Layout :=
  match s.currentKey with
  | none => s.putEntry .blockMapping .value (!s.inFlow)
  | some key =>
      let marked := (s.setKey none).insert key.position .key
      let opened :=
        if s.inFlow || (key.column : Int) ≤ s.indent then marked
        else { marked.insert key.position .blockMapping with indents := key.column :: s.indents }
      .ok ({ opened with keyAllowed := false }.emit .value s.place.next)

def putContent (s : Layout) (read : Place -> Except Fault (Token × Place)) :
    Except Fault Layout := do
  let s <- s.rememberKey
  let (token, after) <- read s.place
  return { s with keyAllowed := false }.emit token after

def quotedToken (quote : Quote) (p : Place) : Except Fault (Token × Place) := do
  let (letters, q) <- quotedAt quote p
  return (.scalar letters false, q)

def putBlockScalar (s : Layout) (isFolded : Bool) : Except Fault Layout := do
  let s <- s.forgetKey
  let (text, after) <- blockAt isFolded s.indent s.place
  return { s with keyAllowed := true }.emit (.scalar (.ofText text) false) after

def putPlain (s : Layout) : Except Fault Layout := do
  let s <- s.rememberKey
  let plain := plainAt s.inFlow s.indent s.place
  return { s with keyAllowed := plain.crossesLine }.emit
    (.scalar (.ofText plain.text) true) plain.place

def isIndicator (c : Char) : Bool :=
  "-?:,[]\x7b\x7d#&*!|>'\"%@\x60".toList.contains c

def beginsPlain (s : Layout) (c : Char) : Bool :=
  !(isIndicator c || endsWord (some c)) ||
    (!endsWord (s.place.look 1) && (c == '-' || (!s.inFlow && (c == '?' || c == ':'))))

def step (s : Layout) : Except Fault Layout := do
  let s <- s.toToken.dropStaleKeys
  let s := s.unwind s.place.column
  let p := s.place
  match p.peek with
  | none => s.finish
  | some c =>
      let standsAlone := endsWord (p.look 1)
      if p.column = 0 && c = '%' then do
        let (directive, after) <- directiveAt p
        s.putOutermost (.directive directive) after
      else if p.column = 0 && p.atMark ['-', '-', '-'] then
        s.putOutermost .documentStart (p.skip 3)
      else if p.column = 0 && p.atMark ['.', '.', '.'] then
        s.putOutermost .documentEnd (p.skip 3)
      else if c = '[' then s.openFlow .flowSequence
      else if c = '\x7b' then s.openFlow .flowMapping
      else if c = ']' then s.closeFlow .flowSequenceEnd
      else if c = '\x7d' then s.closeFlow .flowMappingEnd
      else if c = ',' then do
        let s <- s.forgetKey
        return { s with keyAllowed := true }.emit .flowEntry p.next
      else if c = '-' && standsAlone then s.putEntry .blockSequence .blockEntry true
      else if c = '?' && (s.inFlow || standsAlone) then
        s.putEntry .blockMapping .key (!s.inFlow)
      else if c = ':' && (s.inFlow || standsAlone) then s.putValue
      else if c = '*' then
        s.putContent fun p => do
          let (name, q) <- nameAt p
          return (.reference name, q)
      else if c = '&' then
        s.putContent fun p => do
          let (name, q) <- nameAt p
          return (.anchor name, q)
      else if c = '!' then s.putContent tagAt
      else if c = '|' && !s.inFlow then s.putBlockScalar false
      else if c = '>' && !s.inFlow then s.putBlockScalar true
      else if c = '\'' then s.putContent (quotedToken .single)
      else if c = '"' then s.putContent (quotedToken .double)
      else if s.beginsPlain c then s.putPlain
      else .error .malformed

def possibleKeys (s : Layout) : List PossibleKey :=
  (s.outerKey :: s.flowKeys).filterMap id

def settled (s : Layout) : List Token :=
  let isFresh (key : PossibleKey) : Bool :=
    match freshKey s.place (some key) with
    | .ok (some _) => true
    | _ => false
  let positions := (s.possibleKeys.filter isFresh).map (·.position)
  s.tokens.reverse.take (positions.foldl min s.tokens.length)

/-- All tokens of a text from here on.  What may still become a key is not known where the text
breaks off, and neither is the token at its very end, unless nothing is met there. -/
def run (ending : Option Fault) : Nat -> Layout -> List Token
  | 0, s => s.settled ++ [.broken .malformed]
  | fuel + 1, s =>
      match s.step, ending with
      | .error .unfinished, ending => s.settled ++ [.broken (ending.getD .malformed)]
      | .error fault, _ => s.settled ++ [.broken fault]
      | .ok next, none => if next.isFinished then next.tokens.reverse else run ending fuel next
      | .ok next, some fault =>
          if next.place.rest.isEmpty then s.settled ++ [.broken fault] else run ending fuel next

end Layout

def isAllowed (c : Char) : Bool :=
  c == '\t' || c == '\n' || c == '\r' || (' ' ≤ c && c ≤ '~') || c == '\x85' ||
    ('\xa0' ≤ c && c != '\ufffe' && c != '\uffff')

/-- The number of characters taken from a text at once; at its start it is twice as many. -/
def blockLength : Nat :=
  4096

def taken (text : List Char) : List Char :=
  let blocks := text.length / blockLength
  if blocks < 2 then [] else text.take (blockLength * blocks)

def tokens (text : List Char) (ending : Option Fault) : List Token :=
  let text := if ending.isNone then text else taken text
  let allowed := text.takeWhile isAllowed
  let (readable, ending) :=
    if allowed.length < text.length then (taken allowed, some .malformed) else (text, ending)
  (Layout.start readable).run ending (readable.length + 2)

end Yaml
end Joinery
