import Joinery.Yaml.Block
import Joinery.Yaml.Quotes

/-!
# Tokens of YAML

## Marks, names and scalars

A token is a mark of the layout, a name, a tag or a scalar.  This module reads the
tokens whose form does not depend on the layout around them.
-/

namespace Joinery
namespace Yaml

/-- A line before a document that says how to read it. -/
inductive Directive where
  | version (major minor : Nat)
  | tagHandle (handle start : String)
  | other (name : String)
deriving DecidableEq, Repr

inductive Token where
  | directive (directive : Directive)
  | documentStart
  | documentEnd
  | blockSequence
  | blockMapping
  | blockEnd
  | flowSequence
  | flowSequenceEnd
  | flowMapping
  | flowMappingEnd
  | flowEntry
  | blockEntry
  | key
  | value
  | reference (name : String)
  | anchor (name : String)
  /-- a tag, with the handle that its first part is written with -/
  | tag (handle : Option String) (rest : String)
  | scalar (text : Letters) (isPlain : Bool)
  /-- the place from which on the text cannot be read -/
  | broken (fault : Fault)
deriving DecidableEq, Repr

/-- May a character stand in the name of an anchor, a handle or a directive? -/
def isNameChar (c : Char) : Bool :=
  c.isAlphanum || c == '-' || c == '_'

def isTagChar (c : Char) : Bool :=
  c.isAlphanum || "-;/?:@&=+$,_.!~*'()[]%".toList.contains c

def nameAt (p : Place) : Except Fault (String × Place) :=
  let (name, q) := p.next.run isNameChar
  let ends := endsWord q.peek || q.peek.any fun c => "?:,]\x7d%@\x60".toList.contains c
  if name.isEmpty || !ends then .error .malformed
  else .ok (String.ofList name, q)

/-!
## Tags
-/

def escapedBytes : Nat -> Place -> Except Fault (List UInt8 × Place)
  | 0, p => .ok ([], p)
  | fuel + 1, p =>
      if p.peek ≠ some '%' then .ok ([], p)
      else
        let digits := p.next.rest.take 2
        match Numeral.valueIn? 16 digits with
        | none => .error .malformed
        | some code =>
            if digits.length < 2 then .error .malformed
            else do
              let (bytes, q) <- escapedBytes fuel (p.skip 3)
              return (UInt8.ofNat code :: bytes, q)

def utf8Text? (bytes : List UInt8) : Option (List Char) :=
  (String.fromUTF8? ⟨bytes.toArray⟩).map String.toList

def tagLetters : Nat -> Place -> Except Fault (List Char × Place)
  | 0, p => .ok ([], p)
  | fuel + 1, p =>
      match p.peek with
      | some '%' => do
          let (bytes, q) <- escapedBytes fuel p
          match utf8Text? bytes with
          | none => .error .malformed
          | some text =>
              let (letters, r) <- tagLetters fuel q
              return (text ++ letters, r)
      | some c =>
          if isTagChar c then do
            let (letters, q) <- tagLetters fuel p.next
            return (c :: letters, q)
          else .ok ([], p)
      | none => .ok ([], p)

def tagTextAt (p : Place) : Except Fault (String × Place) := do
  let (letters, q) <- tagLetters (p.rest.length + 1) p
  if q.passed = p.passed then .error .malformed
  else return (String.ofList letters, q)

def handleAt (p : Place) : Except Fault (String × Place) :=
  if p.peek ≠ some '!' then .error .malformed
  else if p.look 1 == some ' ' then .ok ("!", p.next)
  else
    let (name, q) := p.next.run isNameChar
    if q.peek = some '!' then .ok (String.ofList ('!' :: name ++ ['!']), q.next)
    else .error .malformed

def tagAt (p : Place) : Except Fault (Token × Place) := do
  let (tag, q) <-
    if p.look 1 == some '<' then do
      let (text, q) <- tagTextAt (p.skip 2)
      if q.peek ≠ some '>' then .error .malformed
      else pure (Token.tag none text, q.next)
    else if endsWord (p.look 1) then pure (Token.tag none "!", p.next)
    else do
      let word := p.next.rest.takeWhile fun c => !endsName (some c)
      let (handle, q) <- if word.contains '!' then handleAt p else pure ("!", p.next)
      let (text, r) <- tagTextAt q
      pure (Token.tag (some handle) text, r)
  if endsName q.peek then return (tag, q) else .error .malformed

/-!
## Directives
-/

def versionNumber (p : Place) : Except Fault (Nat × Place) :=
  let (digits, q) := p.run Char.isDigit
  if digits.isEmpty then .error .malformed
  else .ok (Numeral.decimal digits, q)

def versionAt (p : Place) : Except Fault (Directive × Place) := do
  let (major, q) <- versionNumber p.skipSpaces
  if q.peek ≠ some '.' then .error .malformed
  else
    let (minor, r) <- versionNumber q.next
    if endsName r.peek then return (.version major minor, r) else .error .malformed

def tagHandleAt (p : Place) : Except Fault (Directive × Place) := do
  let (handle, q) <- handleAt p.skipSpaces
  if q.peek ≠ some ' ' then .error .malformed
  else
    let (start, r) <- tagTextAt q.skipSpaces
    if endsName r.peek then return (.tagHandle handle start, r) else .error .malformed

def directiveAt (p : Place) : Except Fault (Directive × Place) := do
  let (name, q) := p.next.run isNameChar
  if name.isEmpty || !endsName q.peek then .error .malformed
  else
    let (directive, r) <-
      match String.ofList name with
      | "YAML" => versionAt q
      | "TAG" => tagHandleAt q
      | other => pure (.other other, q.skipLine)
    let r <- skipComment r
    return (directive, r)

end Yaml
end Joinery
