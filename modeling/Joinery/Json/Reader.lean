import Joinery.Json.Token

/-!
# Reading JSON

## Building the value of a text

The reader goes through the tokens once and keeps the lists and mappings that are
still open, the innermost first.  At each point one of a few things is expected;
any other token ends the reading without a value.
-/

namespace Joinery
namespace Json

inductive Frame where
  | list (items : List Value)
  | mapping (entries : List (Value × Value)) (key : String)
deriving Repr

inductive Expected where
  /-- a value -/
  | value
  /-- a value, or the end of a list that is still empty -/
  | valueOrClose
  /-- a key -/
  | key (entries : List (Value × Value))
  /-- a key, or the end of a mapping that is still empty -/
  | keyOrClose
  /-- the colon after a key -/
  | colon (entries : List (Value × Value)) (key : String)
  /-- a comma, or the end of the innermost list or mapping -/
  | separator
  /-- nothing any more -/
  | finished (value : Value)
deriving Repr

structure Reading where
  stack : List Frame
  expected : Expected
deriving Repr

/-- The number of lists and mappings that may be open at once. -/
def depthLimit : Nat :=
  1024

def setEntry (key : String) (value : Value) :
    List (Value × Value) -> List (Value × Value)
  | [] => [(.text key, value)]
  | (.text k, v) :: rest =>
      if k = key then (.text k, value) :: rest else (.text k, v) :: setEntry key value rest
  | entry :: rest => entry :: setEntry key value rest

def entriesInOrder (entries : List (Value × Value)) : List (Value × Value) :=
  entries.foldl
    (fun known entry =>
      match entry.1 with
      | .text key => setEntry key entry.2 known
      | _ => known)
    []

namespace Reading

def put (stack : List Frame) (value : Value) : Reading :=
  match stack with
  | [] => { stack := [], expected := .finished value }
  | .list items :: rest => { stack := .list (value :: items) :: rest, expected := .separator }
  | .mapping entries key :: rest =>
      { stack := .mapping ((.text key, value) :: entries) key :: rest, expected := .separator }

def openValue (stack : List Frame) : Token -> Option Reading
  | .scalar value => some (put stack value)
  | .listOpen =>
      if stack.length < depthLimit then
        some { stack := .list [] :: stack, expected := .valueOrClose }
      else none
  | .mappingOpen =>
      if stack.length < depthLimit then some { stack := stack, expected := .keyOrClose }
      else none
  | _ => none

def step (r : Reading) (t : Token) : Option Reading :=
  match r.expected, t with
  | .value, t => openValue r.stack t
  | .valueOrClose, .listClose => some (put (r.stack.drop 1) (.list []))
  | .valueOrClose, t => openValue r.stack t
  | .keyOrClose, .mappingClose => some (put r.stack (.mapping []))
  | .keyOrClose, .scalar (.text key) => some { r with expected := .colon [] key }
  | .key entries, .scalar (.text key) => some { r with expected := .colon entries key }
  | .colon entries key, .colon =>
      some { stack := .mapping entries key :: r.stack, expected := .value }
  | .separator, .comma =>
      match r.stack with
      | .list _ :: _ => some { r with expected := .value }
      | .mapping entries _ :: rest => some { stack := rest, expected := .key entries }
      | [] => none
  | .separator, .listClose =>
      match r.stack with
      | .list items :: rest => some (put rest (.list items.reverse))
      | _ => none
  | .separator, .mappingClose =>
      match r.stack with
      | .mapping entries _ :: rest => some (put rest (.mapping (entriesInOrder entries.reverse)))
      | _ => none
  | _, _ => none

def value? (r : Reading) : Option Value :=
  match r.expected with
  | .finished value => some value
  | _ => none

end Reading

def ofTokens? (ts : List Token) : Option Value :=
  (ts.foldlM Reading.step { stack := [], expected := .value }).bind Reading.value?

def parse (wide : WideIntegers) (text : List Char) : Option Value :=
  (tokens wide text).bind ofTokens?

end Json
end Joinery
