import Joinery.SourceModule.Basic
import Joinery.Text.Matching

/-!
# Clauses in braces

## Names between commas

The braces of an import, an export, a `require` call or an exported object hold
items between commas.  Each kind of clause has its own form of item; an item that
does not have this form is passed over.
-/

namespace Joinery
namespace SourceModule

open Text

/-- Letters of ASCII, the underscore and the dollar sign can begin an identifier. -/
def isIdentifierStart (c : Char) : Bool :=
  c.isAlpha || c == '_' || c == '$'

def isIdentifierChar (c : Char) : Bool :=
  isWordChar c || c == '$'

def identifier : Matcher String := do
  let first <- Matcher.one isIdentifierStart
  let rest <- Matcher.stretch isIdentifierChar
  Matcher.give (String.ofList (first :: rest))

def anyIdentifier : Matcher String := do
  let first <- Matcher.one isIdentifierStart
  let rest <- Matcher.beginnings isIdentifierChar
  Matcher.give (String.ofList (first :: rest))

/-- A text in quotes of either kind, which holds no quote and no line end and is not empty. -/
def quoted : Matcher String := do
  let opening <- Matcher.one fun c => c == '\'' || c == '"'
  let text <- Matcher.stretch1 fun c => c != '\'' && c != '"' && c != '\n'
  Matcher.letters [opening]
  Matcher.give (String.ofList text)

def braced : Matcher (List Char) := do
  Matcher.letters ['{']
  let inside <- Matcher.stretch fun c => c != '}'
  Matcher.letters ['}']
  Matcher.give inside

def clauseItems (clause : List Char) : List (List Char) :=
  ((List.splitOn ',' clause).map trim).filter fun item => !item.isEmpty

def withoutType (item : List Char) : List Char × Bool :=
  match (do Matcher.word "type"; Matcher.blanks1 : Matcher Unit) (Cursor.start item) with
  | [] => (item, false)
  | (_, next) :: _ => (trim next.ahead, true)

def aliased : Matcher (String × String) := do
  let name <- identifier
  let other <- Matcher.optional do
    Matcher.blanks1
    Matcher.word "as"
    Matcher.blanks1
    identifier
  Matcher.textEnd
  Matcher.give (name, other.getD name)

def importedNames (typeOnly : Bool) (clause : List Char) : List Binding :=
  (clauseItems clause).filterMap fun item =>
    let (item, marked) := withoutType item
    (aliased.first? item).map fun (name, localName) =>
      { imported := .named name, localName := localName, typeOnly := typeOnly || marked }

/-- The item `name`, `name: other` or either of them with a value to fall back on. -/
def destructured : Matcher (String × String) := do
  let name <- identifier
  Matcher.blanks
  let other <- Matcher.optional do
    Matcher.letters [':']
    Matcher.blanks
    identifier
  Matcher.blanks
  let _ <- Matcher.optional do
    Matcher.letters ['=']
    Matcher.stretch fun _ => true
  Matcher.textEnd
  Matcher.give (name, other.getD name)

def requiredNames (clause : List Char) : List Binding :=
  (clauseItems clause).filterMap fun item =>
    (destructured.first? item).map fun (name, localName) =>
      { imported := .named name, localName := localName }

def exportedNames (clause : List Char) : List String :=
  (clauseItems clause).filterMap fun item =>
    (aliased.first? (withoutType item).1).map (·.2)

def objectKey : Matcher String := do
  let _ <- Matcher.optional do
    Matcher.word "async"
    Matcher.blanks1
  let name <- anyIdentifier
  Matcher.wordEdge
  Matcher.give name

def objectKeys (clause : List Char) : List String :=
  (clauseItems clause).filterMap objectKey.first?

end SourceModule
end Joinery
