import Joinery.Sorting
import Joinery.SourceModule.Clause
import Joinery.SourceModule.Comments

/-!
# Import statements

## The four forms

An import takes names from another module, or only runs it; a `require` call does
either in older code.  Each form is found on its own, from the start of a line,
and the statements of all forms together are put in the order of the text.  A
statement of no known form is passed over.
-/

namespace Joinery
namespace SourceModule

open Text

def indentation : Matcher Unit := do
  Matcher.lineStart
  let _ <- Matcher.stretch isIndent

def keyword (text : String) : Matcher Unit := do
  Matcher.word text
  Matcher.blanks1

def fromSource : Matcher String := do
  Matcher.word "from"
  Matcher.blanks
  quoted

/-- What an import statement takes besides a default: names in braces, or the whole module. -/
inductive Selection where
  | names (clause : List Char)
  | whole (localName : String)

def selection : Matcher Selection :=
  Matcher.orElse
    (do
      let clause <- braced
      Matcher.give (.names clause))
    (do
      Matcher.letters ['*']
      Matcher.blanks
      keyword "as"
      let name <- anyIdentifier
      Matcher.give (.whole name))

def defaultName : Matcher String := do
  let name <- anyIdentifier
  Matcher.blanks
  let _ <- Matcher.optional do
    Matcher.letters [',']
    Matcher.blanks
  Matcher.give name

def bindingsOf (typeOnly : Bool) (default : Option String) (selected : Option Selection) :
    List Binding :=
  let first := default.toList.map fun name =>
    { imported := .named defaultExport, localName := name, typeOnly := typeOnly }
  let rest :=
    match selected with
    | none => []
    | some (.names clause) => importedNames typeOnly clause
    | some (.whole name) => [{ imported := .whole, localName := name, typeOnly := typeOnly }]
  first ++ rest

/--
An import statement that takes something, from its first word to its source.  One that names
neither a default nor a selection stands for no import, and its text is not read again.
-/
def importForm : Matcher (Nat -> Option Import) := do
  indentation
  keyword "import"
  let marked <- Matcher.optional (keyword "type")
  let default <- Matcher.optional defaultName
  let selected <- Matcher.optional selection
  Matcher.blanks
  let source <- fromSource
  let typeOnly := marked.isSome
  Matcher.give fun line =>
    if default.isNone && selected.isNone then none
    else
      some
        { source := source
          line := line
          bindings := bindingsOf typeOnly default selected
          typeOnly := typeOnly }

def runForm : Matcher (Nat -> Option Import) := do
  indentation
  Matcher.word "import"
  Matcher.blanks
  let source <- quoted
  Matcher.give fun line => some { source := source, line := line }

def requireCall : Matcher String := do
  Matcher.word "require"
  Matcher.blanks
  Matcher.letters ['(']
  Matcher.blanks
  let source <- quoted
  Matcher.blanks
  Matcher.letters [')']
  Matcher.give source

def requireTarget : Matcher (List Binding) :=
  Matcher.orElse
    (do
      let clause <- braced
      Matcher.give (requiredNames clause))
    (do
      let name <- identifier
      Matcher.give [{ imported := .named defaultExport, localName := name }])

def requireForm : Matcher (Nat -> Option Import) := do
  indentation
  Matcher.anyOf [keyword "const", keyword "let", keyword "var"]
  let bindings <- requireTarget
  Matcher.blanks
  Matcher.letters ['=']
  Matcher.blanks
  let source <- requireCall
  Matcher.give fun line => some { source := source, line := line, bindings := bindings }

def bareRequireForm : Matcher (Nat -> Option Import) := do
  indentation
  let source <- requireCall
  Matcher.give fun line => some { source := source, line := line }

def importsOfForm (form : Matcher (Nat -> Option Import)) (code : List Char) :
    List (Nat × Import) :=
  (findAll form code).filterMap fun found =>
    (found.value found.place.line).map fun record => (found.place.offset, record)

def importsOfCode (code : List Char) : List Import :=
  let forms := [importForm, runForm, requireForm, bareRequireForm]
  let all := forms.flatMap fun form => importsOfForm form code
  (sortBy (fun a b => decide (a.1 ≤ b.1)) all).map (·.2)

end SourceModule
end Joinery
