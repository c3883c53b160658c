import Joinery.MissingFile
import Joinery.WorkOrder

/-!
# Repairing exports

## Naming what a module declares already

A generated module often declares a helper and exports only its default, while a
neighbour imports the helper by name.  If the missing name is declared in the
module, an export list at its end is enough.
-/

namespace Joinery

/-- All that is known when a repair is asked for. -/
structure FixRequest where
  pass : Int
  errors : List Diagnostic
  missingExports : List MissingExport
  files : Table String
  missingFiles : List MissingFile := []
deriving DecidableEq, Repr

namespace FixRequest

def missingByTarget (request : FixRequest) : Table (List String) :=
  request.missingExports.foldl
    (fun known item =>
      let names := (known.get? item.target).getD []
      known.insert item.target (if names.contains item.name then names else names ++ [item.name]))
    Table.empty

end FixRequest

namespace ExportFix

open Text

def exportListStart : Matcher Unit := do
  SourceModule.indentation
  Matcher.word "export"
  Matcher.blanks
  Matcher.letters ['{']

def declaringWords : List String :=
  ["function", "function*", "const", "let", "var", "class"]

def declarationOf (name : String) : Matcher Unit := do
  Matcher.anyOf (declaringWords.map Matcher.word)
  Matcher.someBlanks
  Matcher.word name
  Matcher.wordEdge

def declares (text : List Char) (name : String) : Bool :=
  !(findAll (declarationOf name) text).isEmpty

def withExportList (text : String) (names : List String) : String :=
  String.ofList (trimEnd text.toList) ++ "\n\nexport \x7b " ++ ", ".intercalate names ++ " \x7d\n"

def addable (text : String) (names : List String) : List String :=
  let exports := (SourceModule.scan "" text).exports
  if !exports.hasDefault || exports.commonjs then []
  else if !(findAll exportListStart text.toList).isEmpty then []
  else names.filter (declares text.toList)

def operationFor (files : Table String) (target : String) (names : List String) :
    Option FileOperation :=
  match files.get? target with
  | none => none
  | some text =>
      let defined := addable text names
      if defined.isEmpty then none
      else
        some
          { path := target
            action := .modify
            content := some (withExportList text defined)
            description := some ("Export " ++ ", ".intercalate defined ++ " by name") }

def ordersFor (request : FixRequest) : List WorkOrder :=
  let operations := request.missingByTarget.entries.filterMap fun entry =>
    operationFor request.files entry.1 entry.2
  if operations.isEmpty then []
  else
    [{ id := "autofix-exports-pass-" ++ toString request.pass
       title := "Add missing named exports"
       description := "Export locally defined names that were only default-exported"
       files := operations }]

end ExportFix
end Joinery
